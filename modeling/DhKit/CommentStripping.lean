import DhKit.BridgeFraming

/-!
# JSON with comments and trailing commas

Configuration files are stripped of comments and of commas before a closing bracket: the passes
turn the gaps between the tokens of a document into white space.
-/
namespace DhKit.Modules
open Bridge (isRustSpace)
open List

/-- Where a pass stands: `text` with whether a backslash came last, `block` with the character
before. -/
inductive Scan where
 | code
 | text (escaped : Bool)
 | line
 | block (previous : Char)

def inString (escaped : Bool) (c : Char) : Scan :=
 if escaped then .text false
 else if c = '\\' then .text true
 else if c = '"' then .code
 else .text false

def stripJsonComments : Scan → List Char → List Char
 | _,[] => []
 | .text escaped,c::rest => c::stripJsonComments (inString escaped c) rest
 | .line,c::rest =>
  if c = '\n' then '\n' :: stripJsonComments .code rest else stripJsonComments .line rest
 | .block previous,c::rest =>
  (if c = '\n' then ['\n'] else []) ++
   stripJsonComments (if previous = '*' ∧ c = '/' then .code else .block c) rest
 | .code,'/' :: '/' :: rest => stripJsonComments .line rest
 | .code,'/' :: '*' :: rest => stripJsonComments (.block '\x00') rest
 | .code,c :: rest => c :: stripJsonComments (if c = '"' then .text false else .code) rest

def beforeClosing (rest : List Char) : Bool :=
 (rest.dropWhile isRustSpace).head?.any fun c => c = '}' ∨ c = ']'

def stripTrailingCommas : Scan → List Char → List Char
 | _,[] => []
 | .text escaped,c::rest => c::stripTrailingCommas (inString escaped c) rest
 | _,c::rest =>
  if c = ',' ∧ beforeClosing rest then stripTrailingCommas .code rest
  else c :: stripTrailingCommas (if c = '"' then .text false else .code) rest

def stripJsonCommentsAndTrailingCommas (input : List Char) : List Char :=
 stripTrailingCommas .code (stripJsonComments .code input)

/-- What may stand between the quotes of a string literal. -/
inductive StringBody : List Char → Prop where
 | nil : StringBody []
 | plain {c : Char} {rest : List Char} (hquote : c ≠ '"') (hslash : c ≠ '\\')
  (h : StringBody rest) : StringBody (c::rest)
 | escape (c : Char) {rest : List Char} (h : StringBody rest) : StringBody ('\\' :: c :: rest)

/-- The characters of numbers and of `true`, `false` and `null`. -/
def atomChar (c : Char) : Bool := c.isAlphanum || c = '+' || c = '-' || c = '.'

inductive Token where
 | comma | colon | openArray | closeArray | openObject | closeObject
 | string (body : { body : List Char // StringBody body })
 | atom (text : { text : List Char // text≠[] ∧ ∀ c ∈ text,atomChar c })

namespace Token

def render : Token → List Char
 | comma => [',']
 | colon => [':']
 | openArray => ['[']
 | closeArray => [']']
 | openObject => ['{']
 | closeObject => ['}']
 | string body => '"' :: (body.1 ++ ['"'])
 | atom text => text.1

def Closes (t : Token) : Prop := t = closeArray ∨ t = closeObject

end Token

abbrev Literal := { body : List Char // StringBody body }

inductive Document where
 | string (body : Literal)
 | atom (text : { text : List Char // text≠[] ∧ ∀ c ∈ text,atomChar c })
 | array (items : List Document)
 | object (members : List (Literal × Document))

namespace Document

mutual
def tokens : Document → List Token
 | string body => [.string body]
 | atom text => [.atom text]
 | array items => .openArray::(itemTokens items++[.closeArray])
 | object members => .openObject::(memberTokens members++[.closeObject])
def itemTokens : List Document → List Token
 | [] => []
 | [item] => tokens item
 | item::next::items => tokens item ++ .comma::itemTokens (next::items)
def memberTokens : List (Literal × Document) → List Token
 | [] => []
 | [(key,value)] => .string key :: .colon::tokens value
 | (key,value)::next::members =>
  .string key :: .colon::(tokens value ++ .comma::memberTokens (next::members))
end

end Document

def White (gap : List Char) : Prop := ∀ c ∈ gap,c ∈ [' ','\t','\n','\r']

/-- White space and comments between two tokens. -/
inductive Gap : List Char → Prop where
 | nil : Gap []
 | space {c : Char} {rest : List Char} (hc : c ∈ [' ','\t','\n','\r']) (h : Gap rest) :
  Gap (c::rest)
 | line {comment rest : List Char} (hcomment : '\n' ∉ comment) (h : Gap rest) :
  Gap ('/' :: '/' :: (comment ++ '\n' :: rest))
 | block {comment rest : List Char} (hcomment : ¬ ['*','/'] <:+: comment ++ ['*']) (h : Gap rest) :
  Gap ('/' :: '*' :: (comment ++ '*' :: '/' :: rest))

def LastGap (gap : List Char) : Prop :=
 Gap gap ∨ ∃ front comment,Gap front ∧ '\n' ∉ comment ∧ gap = front ++ '/' :: '/' :: comment

/-- The text of tokens with gaps before each and at the end, and with added commas before closing
brackets where these are allowed. -/
inductive Lays (gap last : List Char → Prop) (commas : Prop) : List Token → List Char → Prop where
 | done {g : List Char} (hg : last g) : Lays gap last commas [] g
 | token {t : Token} {ts : List Token} {g text : List Char} (hg : gap g)
  (h : Lays gap last commas ts text) : Lays gap last commas (t::ts) (g++(t.render++text))
 | comma {t : Token} {ts : List Token} {g g' text : List Char} (hcommas : commas)
  (hcloses : t.Closes) (hg : gap g) (hg' : gap g') (h : Lays gap last commas ts text) :
  Lays gap last commas (t :: ts) (g ++ ',' :: (g' ++ (t.render ++ text)))

/-- A text that is JSON for the document. -/
def JsonText (doc : Document) (text : List Char) : Prop := Lays White White False doc.tokens text

/-- A text of the document with comments and trailing commas. -/
def RelaxedText (doc : Document) (text : List Char) : Prop := Lays Gap LastGap True doc.tokens text

variable {g text : List Char} {ts : List Token} {c : Char} {t : Token}

theorem kept_append {pass : List Char → List Char}
 (h:∀c∈text,∀rest,pass (c::rest)=c::pass rest) (rest : List Char) :
 pass (text++rest)=text++pass rest := by
 induction text with
 | nil => rfl
 | cons c text ih =>
  rw [cons_append,h c mem_cons_self,ih fun d hd=>h d (mem_cons_of_mem _ hd),cons_append]

theorem White.append {g' : List Char} (h:White g) (h':White g') : White (g++g') := by
 intro c hc
 rcases mem_append.mp hc with hc|hc
 · exact h c hc
 · exact h' c hc

variable {c : Char}

theorem White.cons (hc:c∈[' ','\t','\n','\r']) (h:White g) :
 White (c::g) := by
 intro d hd
 rcases mem_cons.mp hd with rfl|hd
 · exact hc
 · exact h d hd

section
variable {pass : Scan → List Char → List Char}
 (htext : ∀ escaped c rest,pass (.text escaped) (c::rest) = c::pass (inString escaped c) rest)
 (hquote : ∀ rest,pass .code ('"' :: rest) = '"' :: pass (.text false) rest)
 (hplain : ∀ c rest,c ≠ '/' → c ≠ '"' → c ≠ ',' → pass .code (c :: rest) = c :: pass .code rest)

include htext in
theorem string_kept {body : List Char} (h:StringBody body) (rest : List Char) :
 pass (.text false) (body ++ '"' :: rest)=body ++ '"' :: pass .code rest := by
 induction h with
 | nil => exact htext _ _ _
 | plain hquote hslash h ih => simp [htext,inString,hquote,hslash,ih]
 | escape c h ih => simp [htext,inString,ih]

include hplain in
theorem white_kept {g : List Char} (h:White g) (rest : List Char) :
 pass .code (g++rest)=g++pass .code rest := by
 have hsp:∀c∈[' ','\t','\n','\r'],c ≠ '/' ∧ c ≠ '"' ∧ c ≠ ',' := by simp
 apply kept_append
 intro c hc rest
 obtain ⟨hslash,hquote,hco⟩:=hsp c (h c hc)
 exact hplain c rest hslash hquote hco

include htext hquote hplain in
theorem token_kept {t : Token} (ht:t≠.comma) (rest : List Char) :
 pass .code (t.render++rest)=t.render++pass .code rest := by
 cases t with
 | comma => exact absurd rfl ht
 | string body =>
  change pass .code ('"' :: (body.1 ++ ['"'] ++ rest))=_
  rw [hquote,append_assoc,singleton_append,string_kept htext body.2]
  simp [Token.render]
 | atom text =>
  apply kept_append
  intro c hc rest
  have hat:=text.2.2 c hc
  apply hplain
  all_goals
   rintro rfl
   exact absurd hat (by decide)
 | _ => exact hplain _ _ (by decide) (by decide) (by decide)

end

section
variable {rest : List Char} {comment gap : List Char}

theorem stripJsonComments_code (hslash:c ≠ '/') :
 stripJsonComments .code (c::rest) =
  c :: stripJsonComments (if c = '"' then .text false else .code) rest := by
 rw [stripJsonComments.eq_7]
 · exact fun _ h _=>hslash h
 · exact fun _ h _=>hslash h

theorem stripJsonComments_plain (c : Char) (rest : List Char) (hslash:c ≠ '/')
 (hquote:c ≠ '"') (_ : c ≠ ',') :
 stripJsonComments .code (c::rest)=c::stripJsonComments .code rest := by
 rw [stripJsonComments_code hslash,if_neg hquote]

theorem strip_token (t : Token) :
 stripJsonComments .code (t.render++rest)=t.render++stripJsonComments .code rest := by
 by_cases ht : t = .comma
 · rw [ht]
   exact stripJsonComments_code (by decide)
 · apply token_kept _ _ stripJsonComments_plain ht
   · exact fun _ _ _=>stripJsonComments.eq_2 _ _ _
   · exact fun _=>stripJsonComments_code (by decide)

theorem strip_line (h : '\n' ∉ comment) :
 stripJsonComments .line (comment++rest)=stripJsonComments .line rest := by
 induction comment with
 | nil => rfl
 | cons c comment ih =>
  have hc:c ≠ '\n' := fun he=>h (he ▸ mem_cons_self)
  rw [cons_append,stripJsonComments,if_neg hc]
  exact ih fun hme=>h (mem_cons_of_mem _ hme)

/-- A block comment leaves its line ends. -/
theorem strip_block {previous : Char} (h:¬ ['*','/'] <:+: previous :: (comment ++ ['*'])) :
 ∃lines,White lines ∧ ∀rest,
  stripJsonComments (.block previous) (comment ++ '*' :: '/' :: rest) =
   lines++stripJsonComments .code rest := by
 induction comment generalizing previous with
 | nil => exact ⟨[],nofun,fun rest=>by simp [stripJsonComments]⟩
 | cons c comment ih =>
  have ho:¬(previous = '*' ∧ c = '/') := by
   rintro ⟨rfl,rfl⟩
   exact h ⟨[],comment ++ ['*'],rfl⟩
  obtain ⟨lines,hl,hst⟩:=ih fun hme=>h (hme.trans (suffix_cons _ _).isInfix)
  refine ⟨(if c = '\n' then ['\n'] else []) ++ lines,White.append ?_ hl,fun rest=>?_⟩
  · split_ifs
    · exact White.cons (by simp) nofun
    · exact nofun
  · rw [cons_append,stripJsonComments,if_neg ho,hst,append_assoc]

theorem strip_gap (h:Gap gap) :
 ∃white,White white ∧ ∀rest,stripJsonComments .code (gap++rest) =
  white++stripJsonComments .code rest := by
 induction h with
 | nil => exact ⟨[],nofun,fun _=>rfl⟩
 | @space c gap hc h ih =>
  obtain ⟨white,hwh,hst⟩:=ih
  refine ⟨c::white,hwh.cons hc,fun rest=>?_⟩
  have ho:=white_kept stripJsonComments_plain (White.cons (g := []) hc nofun) (gap++rest)
  rw [cons_append,←singleton_append,ho,hst]
  rfl
 | @line comment gap hcomment h ih =>
  obtain ⟨white,hwh,hst⟩:=ih
  refine ⟨'\n' :: white,hwh.cons (by simp),fun rest=>?_⟩
  simp [stripJsonComments,strip_line hcomment,hst]
 | @block comment gap hcomment h ih =>
  obtain ⟨white,hwh,hst⟩:=ih
  have hf:¬ ['*','/'] <:+: '\x00' :: (comment ++ ['*']) := by
   intro hi
   rcases infix_cons_iff.mp hi with hp|hi
   · exact absurd (cons_prefix_cons.mp hp).1 (by decide)
   · exact hcomment hi
  obtain ⟨lines,hl,hb⟩:=strip_block hf
  refine ⟨lines++white,hl.append hwh,fun rest=>?_⟩
  simp [stripJsonComments,hb,hst]

theorem strip_lastGap (h:LastGap gap) :
 White (stripJsonComments .code gap) := by
 rcases h with h|⟨front,comment,hf,hcomment,rfl⟩
 · obtain ⟨white,hwh,hst⟩:=strip_gap h
   rw [←append_nil gap,hst,stripJsonComments,append_nil]
   exact hwh
 obtain ⟨white,hwh,hst⟩:=strip_gap hf
 have hen:=@strip_line [] comment hcomment
 rw [hst,stripJsonComments,←append_nil comment,hen,stripJsonComments,append_nil]
 exact hwh

theorem strip_comments (h:Lays Gap LastGap True ts text) :
 Lays White White True ts (stripJsonComments .code text) := by
 induction h with
 | done hg => exact .done (strip_lastGap hg)
 | token hg h ih =>
  obtain ⟨white,hwh,hst⟩:=strip_gap hg
  rw [hst,strip_token]
  exact .token hwh ih
 | comma hcommas hcloses hg hg' h ih =>
  obtain ⟨white,hwh,hst⟩:=strip_gap hg
  obtain ⟨white',hwh',hst'⟩:=strip_gap hg'
  rw [hst,stripJsonComments_code (by decide),if_neg (by decide),hst',strip_token]
  exact .comma hcommas hcloses hwh hwh' ih

end

/-- A comma stands before a token that does not close. -/
inductive Settled : List Token → Prop where
 | nil : Settled []
 | comma {t : Token} {ts : List Token} (ht : ¬ t.Closes) (h : Settled (t::ts)) :
  Settled (.comma::t::ts)
 | token {t : Token} {ts : List Token} (ht : t≠.comma) (h : Settled ts) : Settled (t::ts)

theorem Document.tokens_head (doc : Document) : ∃t ts,doc.tokens=t::ts ∧ ¬t.Closes := by
 cases doc with
 | string body | atom text | array items | object members =>
  exact ⟨_,_,by rw [tokens],by simp [Token.Closes]⟩

mutual
theorem Document.tokens_settled (doc : Document) {rest : List Token} (h:Settled rest) :
 Settled (doc.tokens++rest) := by
 cases doc with
 | string body | atom text =>
  rw [tokens]
  exact .token nofun h
 | array items =>
  rw [tokens,cons_append,append_assoc]
  exact .token nofun (itemTokens_settled items (.token nofun h))
 | object members =>
  rw [tokens,cons_append,append_assoc]
  exact .token nofun (memberTokens_settled members (.token nofun h))
theorem Document.itemTokens_settled (items : List Document) {rest : List Token}
 (h:Settled rest) : Settled (itemTokens items++rest) := by
 match items with
 | [] =>
  rw [itemTokens]
  exact h
 | [item] =>
  rw [itemTokens]
  exact tokens_settled item h
 | item::next::items =>
  have hr:=itemTokens_settled (next::items) h
  obtain ⟨t,ts,hh,ho⟩ : ∃t ts,itemTokens (next::items)=t::ts ∧ ¬t.Closes := by
   obtain ⟨t,ts,hh,ho⟩:=next.tokens_head
   cases items with
   | nil => exact ⟨t,ts,by rw [itemTokens,hh],ho⟩
   | cons => exact ⟨t,_,by rw [itemTokens,hh,cons_append],ho⟩
  rw [itemTokens,append_assoc,cons_append]
  apply tokens_settled item
  rw [hh] at hr ⊢
  exact .comma ho hr
theorem Document.memberTokens_settled (members : List (Literal × Document)) {rest : List Token}
 (h:Settled rest) : Settled (memberTokens members++rest) := by
 match members with
 | [] =>
  rw [memberTokens]
  exact h
 | [(key,value)] =>
  rw [memberTokens]
  exact .token nofun (.token nofun (tokens_settled value h))
 | (key,value)::next::members =>
  have hr:=memberTokens_settled (next::members) h
  obtain ⟨ts,hh⟩ : ∃ts,memberTokens (next::members) = .string next.1::ts := by
   cases members with
   | nil | cons => exact ⟨_,by rw [memberTokens]⟩
  rw [memberTokens,cons_append,cons_append,append_assoc,cons_append]
  refine .token (t := .string key) nofun (.token (t := .colon) nofun (tokens_settled value ?_))
  rw [hh] at hr ⊢
  exact .comma (by simp [Token.Closes]) hr
end

theorem stripTrailingCommas_code {c : Char} {rest : List Char}
 (h:¬(c = ',' ∧ beforeClosing rest)) : stripTrailingCommas .code (c :: rest) =
  c :: stripTrailingCommas (if c = '"' then .text false else .code) rest := by
 rw [stripTrailingCommas,if_neg h]
 exact nofun

theorem stripTrailingCommas_plain (c : Char) (rest : List Char) (_ : c ≠ '/') (hquote:c ≠ '"')
 (hco:c ≠ ',') : stripTrailingCommas .code (c :: rest) =
  c::stripTrailingCommas .code rest := by
 rw [stripTrailingCommas_code fun h=>hco h.1,if_neg hquote]

theorem beforeClosing_white {g : List Char} (h:White g) (rest : List Char) :
 beforeClosing (g++rest)=beforeClosing rest := by
 have hsp:∀c∈[' ','\t','\n','\r'],isRustSpace c := by
  simp [isRustSpace,Bridge.isAsciiSpace]
 have hal:∀c∈g,isRustSpace c:=fun c hc=>hsp c (h c hc)
 rw [beforeClosing,dropWhile_append_of_pos hal,beforeClosing]

theorem beforeClosing_closes {t : Token} (h:t.Closes) (rest : List Char) :
 beforeClosing (t.render++rest) := by
 rcases h with rfl|rfl
 · rfl
 · rfl

theorem atomChar_range {c : Char} (h:atomChar c) : 43 ≤ c.toNat ∧ c.toNat ≤ 122 := by
 have hrange:∀{lo hi : UInt32},lo ≤ c.val → c.val ≤ hi → 43 ≤ lo.toNat → hi.toNat ≤ 122 →
  43 ≤ c.toNat ∧ c.toNat ≤ 122 :=
  fun h h' hlo hhi=>⟨Nat.le_trans hlo h,Nat.le_trans h' hhi⟩
 simp only [atomChar,Bool.or_eq_true,decide_eq_true_eq] at h
 rcases h with ((h|rfl)|rfl)|rfl
 · rcases Bool.or_eq_true_iff.mp h with h|h
   · rcases Bool.or_eq_true_iff.mp h with h|h
     · obtain ⟨h,h'⟩:=of_decide_eq_true h
       exact hrange h h' (by decide) (by decide)
     · obtain ⟨h,h'⟩:=Bool.and_eq_true_iff.mp h
       exact hrange (of_decide_eq_true h) (of_decide_eq_true h') (by decide) (by decide)
   · obtain ⟨h,h'⟩:=Bool.and_eq_true_iff.mp h
     exact hrange (of_decide_eq_true h) (of_decide_eq_true h') (by decide) (by decide)
 all_goals decide

theorem atomChar_open {c : Char} (h:atomChar c) :
 isRustSpace c=false ∧ c ≠ '}' ∧ c ≠ ']' := by
 have hsp:c ≠ ' ' := by
  rintro rfl
  exact absurd h (by decide)
 obtain ⟨hl,hh⟩:=atomChar_range h
 refine ⟨?_,?_,?_⟩
 · simp [isRustSpace,Bridge.isAsciiSpace,hsp]
   omega
 all_goals
  rintro rfl
  exact absurd h (by decide)

theorem beforeClosing_open {t : Token} (h:¬t.Closes) (rest : List Char) :
 beforeClosing (t.render++rest)=false := by
 cases t with
 | closeArray => exact absurd (.inl rfl) h
 | closeObject => exact absurd (.inr rfl) h
 | atom text =>
  obtain ⟨text,hne,hat⟩:=text
  cases text with
  | nil => exact absurd rfl hne
  | cons c text =>
   obtain ⟨hsp,hcl⟩:=atomChar_open (hat c mem_cons_self)
   simp [beforeClosing,Token.render,hsp,hcl]
 | _ => rfl

theorem Lays.beforeClosing_text {t : Token} {ts : List Token} {text : List Char}
 (h:Lays White White True (t::ts) text) (ht:¬t.Closes) : beforeClosing text=false := by
 cases h with
 | token hg h => rw [beforeClosing_white hg,beforeClosing_open ht]
 | comma _ hcloses => exact absurd hcloses ht

theorem strip_commas {ts : List Token} {text : List Char} (h:Lays White White True ts text)
 (hs:Settled ts) : Lays White White False ts (stripTrailingCommas .code text) := by
 have hto:∀ {t : Token} (_ : t≠.comma) rest,stripTrailingCommas .code (t.render++rest) =
   t.render++stripTrailingCommas .code rest := by
  intro t
  apply token_kept _ _ stripTrailingCommas_plain
  · exact fun _ _ _=>by rw [stripTrailingCommas]
  · exact fun _=>stripTrailingCommas_code (by simp)
 have hwh:=@white_kept _ stripTrailingCommas_plain
 induction h with
 | @done g hg =>
  rw [←append_nil g,hwh hg,stripTrailingCommas,append_nil]
  exact .done hg
 | token hg h ih =>
  rw [hwh hg]
  cases hs with
  | comma ht hs =>
   -- a comma of the document stays, for what follows it does not close
   have hst:=h.beforeClosing_text ht
   rw [Token.render,singleton_append,stripTrailingCommas_code (by simp [hst])]
   exact .token hg (ih hs)
  | token ht hs =>
   rw [hto ht]
   exact .token hg (ih hs)
 | @comma t ts g g' text _ hcloses hg hg' h ih =>
  -- an added comma goes, and the gaps on its sides become one
  have hgo:beforeClosing (g'++(t.render++text)):=by
   rw [beforeClosing_white hg']
   exact beforeClosing_closes hcloses text
  have ht:t≠.comma:=by
   rintro rfl
   simp [Token.Closes] at hcloses
  rw [hwh hg,stripTrailingCommas,if_pos ⟨rfl,hgo⟩,hwh hg',hto ht,←append_assoc]
  · apply Lays.token (hg.append hg') (ih _)
    cases hs with
    | comma => exact absurd rfl ht
    | token _ hs => exact hs
  · exact nofun

/-- For every document, and every text of it with white space and comments between its tokens and
commas before its closing brackets, the stripped text is JSON for that document. -/
theorem stripped_text_exact (doc : Document) (text : List Char) (h : RelaxedText doc text) :
 JsonText doc (stripJsonCommentsAndTrailingCommas text) := by
 have hse:=doc.tokens_settled Settled.nil
 rw [append_nil] at hse
 exact strip_commas (strip_comments h) hse

/-- The document `[1]` with a line comment behind an added comma. -/
theorem stripped_text_exact_one :
 JsonText (.array [.atom ⟨['1'],nofun,forall_mem_singleton.mpr rfl⟩])
  (stripJsonCommentsAndTrailingCommas ['[','1',',','/','/','c','\n',']']) := by
 apply stripped_text_exact
 have hl:Gap ['/','/','c','\n'] := @Gap.line ['c'] [] (by decide) .nil
 have hcl:Lays Gap LastGap True [.closeArray] [',','/','/','c','\n',']'] :=
  .comma (g := []) trivial (.inl rfl) .nil hl (.done (.inl .nil))
 exact .token (g := []) .nil (.token (g := []) .nil hcl)

end DhKit.Modules
