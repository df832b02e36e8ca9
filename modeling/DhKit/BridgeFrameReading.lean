import DhKit.BridgeFraming

/-!
# Reading back what was written

The header of a frame is made of lines without line breaks in them.
-/
namespace DhKit.Bridge
open StreamFrames List

def IsAscii (text : List Char) : Prop := ∀ c ∈ text,c.toNat < 128

variable {c : Char} {line : List Char} {isSpace : Char → Bool}

theorem toNat_asciiByte (hc:c.toNat < 128) : (UInt8.ofNat c.toNat).toNat=c.toNat := by
 simp
 omega

theorem utf8Text_asciiBytes {text : List Char} (h:IsAscii text) :
 utf8Text (asciiBytes text)=some text := by
 have hen:∀t : List Char,IsAscii t → t.flatMap String.utf8EncodeChar=asciiBytes t:=by
  intro t ht
  induction t with
  | nil => rfl
  | cons c t ih =>
   have hc:c.val.toNat ≤ 127:=Nat.le_of_lt_succ (ht c mem_cons_self)
   rw [flatMap_cons,ih fun d hd=>ht d (mem_cons_of_mem _ hd),String.utf8EncodeChar,
    if_pos hc]
   rfl
 have hb:(asciiBytes text).toByteArray=(String.ofList text).toByteArray:=by
  rw [String.toByteArray_ofList,List.utf8Encode,hen text h]
 unfold utf8Text
 rw [hb,String.fromUTF8?,dif_pos (String.ofList text).isValidUTF8]
 change some (String.ofList text).toList=some text
 rw [String.toList_ofList]

structure PlainLine (line : List Char) : Prop where
 nonempty : line≠[]
 ascii : IsAscii line
 noReturn : '\r' ∉ line
 noFeed : '\n' ∉ line

theorem asciiBytes_notMem (h:IsAscii line) (hc:c.toNat < 128)
 (hme:c ∉ line) : UInt8.ofNat c.toNat ∉ asciiBytes line := by
 intro hin
 obtain ⟨d,hd,heq⟩:=mem_map.mp hin
 have hn:=congrArg UInt8.toNat heq
 rw [toNat_asciiByte (h d hd),toNat_asciiByte hc] at hn
 have : d=c := by rw [←Char.ofNat_toNat d,hn,Char.ofNat_toNat]
 exact hme (this ▸ hd)

def joinCrlf : List (List Char) → List Char
 | [] => []
 | [line] => line
 | line :: next :: lines => line ++ '\r' :: '\n' :: joinCrlf (next :: lines)

def headerBytes (lines : List (List Char)) : Bytes :=
 asciiBytes (joinCrlf lines)++[13,10,13,10]

def digits (n : Nat) : List Char := (toString n).toList

theorem digits_eq (n : Nat) : digits n=Nat.toDigits 10 n := by
 change (Nat.repr n).toList=_
 rw [Nat.repr_eq_ofList_toDigits,String.toList_ofList]

theorem isDigit_of_mem_digits {n : Nat} (h:c∈digits n) : c.isDigit=true :=
 Nat.isDigit_of_mem_toDigits (by omega) (by omega) (digits_eq n ▸ h)

theorem digits_ne_nil (n : Nat) : digits n≠[] := digits_eq n ▸ Nat.toDigits_ne_nil

theorem ofDigitChars_digits (n : Nat) : Nat.ofDigitChars 10 (digits n) 0=n := by
 rw [digits_eq,Nat.ofDigitChars_toDigits (by omega) (by omega)]

theorem toNat_of_isDigit (h:c.isDigit=true) : 48 ≤ c.toNat ∧ c.toNat ≤ 57 := by
 simpa [Char.isDigit,UInt32.le_iff_toNat_le] using h

def lengthLine (n : Nat) : List Char := "Content-Length: ".toList ++ digits n

def typeLine (codec : Codec) : List Char :=
 "Content-Type: ".toList ++ (contentTypeForCodec codec).toList

def headerLines (contentType : Option Codec) (n : Nat) : List (List Char) :=
 lengthLine n::(contentType.map typeLine).toList

def frameOf (contentType : Option Codec) (body : Bytes) : Bytes :=
 headerBytes (headerLines contentType body.length)++body

theorem plain_of_all {text : List Char}
 (h:text.all (fun c=>Nat.blt c.toNat 128 && c != '\r' && c != '\n')=true) :
 ∀c∈text,c.toNat < 128 ∧ c ≠ '\r' ∧ c ≠ '\n' := by
 intro c hc
 simpa [and_assoc] using all_eq_true.mp h c hc

theorem plainLine_of_plain {text : List Char} (hne:text≠[])
 (h:∀c∈text,c.toNat < 128 ∧ c ≠ '\r' ∧ c ≠ '\n') : PlainLine text :=
 ⟨hne,fun c hc=>(h c hc).1,fun hc=>(h _ hc).2.1 rfl,fun hc=>(h _ hc).2.2 rfl⟩

theorem plainLine_lengthLine (n : Nat) : PlainLine (lengthLine n) := by
 apply plainLine_of_plain (append_ne_nil_of_right_ne_nil _ (digits_ne_nil n))
 intro c hc
 rcases mem_append.mp hc with h|h
 · refine plain_of_all ?_ c h
   rfl
 have hdi:=toNat_of_isDigit (isDigit_of_mem_digits h)
 refine ⟨by omega,?_,?_⟩
 · rintro rfl
   exact absurd hdi (by decide)
 · rintro rfl
   exact absurd hdi (by decide)

theorem plainLine_typeLine (codec : Codec) : PlainLine (typeLine codec) := by
 have hne:"Content-Type: ".toList ≠ [] := by
  exact cons_ne_nil _ _
 apply plainLine_of_plain (append_ne_nil_of_left_ne_nil hne _)
 apply plain_of_all
 cases codec with
 | json | msgpack =>
  rfl

theorem asciiBytes_append (s t : List Char) :
 asciiBytes (s++t)=asciiBytes s++asciiBytes t := map_append

theorem header_eq_headerBytes (codec : Codec) (n : Nat) :
 asciiBytes ("Content-Length: " ++ toString n ++ "\r\nContent-Type: " ++
  contentTypeForCodec codec ++ "\r\n\r\n").toList=headerBytes (headerLines (some codec) n) := by
 have hb:"\r\nContent-Type: ".toList = '\r' :: '\n' :: "Content-Type: ".toList := by simp
 have hen:asciiBytes "\r\n\r\n".toList=[13,10,13,10] := by simp [asciiBytes]
 have hl:joinCrlf (headerLines (some codec) n) = "Content-Length: ".toList ++ digits n ++
  "\r\nContent-Type: ".toList ++ (contentTypeForCodec codec).toList := by
  rw [hb,append_assoc]
  rfl
 rw [String.toList_append,asciiBytes_append,hen,headerBytes,hl,String.toList_append,
  String.toList_append,String.toList_append]
 rfl

section
variable {V : Type} (wire : Wire V)

theorem writeRpcResponse_eq (codec : Codec) (payload : V) {maxFrameBytes : Nat}
 (hl:(wire.encodeRust codec payload).length ≤ maxFrameBytes) :
 writeRpcResponse wire codec payload maxFrameBytes =
  .ok (frameOf (some codec) (wire.encodeRust codec payload)) := by
 unfold writeRpcResponse
 rw [if_neg (by omega)]
 simp only [header_eq_headerBytes,frameOf]

end

theorem dropWhile_padded {pad text : List Char}
 (hp:∀c∈pad,isSpace c=true) (htext:∀c∈text.head?,isSpace c=false) :
 (pad++text).dropWhile isSpace=text := by
 rw [dropWhile_append_of_pos hp]
 cases text with
 | nil => rfl
 | cons c text => simp [htext c rfl]

theorem trimBy_padded {before text after : List Char}
 (hb:∀c∈before,isSpace c=true) (haf:∀c∈after,isSpace c=true)
 (hne:text≠[]) (htext:∀c∈text,isSpace c=false) :
 trimBy isSpace (before++(text++after))=text := by
 have hh:∀c∈(text++after).head?,isSpace c=false:=by
  obtain ⟨c,text,rfl⟩:=exists_cons_of_ne_nil hne
  rintro d ⟨⟩
  exact htext c mem_cons_self
 have hl:∀c∈text.reverse.head?,isSpace c=false:=fun c hc=>
  htext c (mem_reverse.mp (mem_of_mem_head? hc))
 unfold trimBy
 rw [dropWhile_padded hb hh,reverse_append,
  dropWhile_padded (fun c hc=>haf c (mem_reverse.mp hc)) hl,reverse_reverse]

theorem isRustSpace_of_graphic (h:33 ≤ c.toNat ∧ c.toNat < 127) :
 isRustSpace c=false ∧ isAsciiSpace c=false := by
 have hsp:c ≠ ' ' := by
  rintro rfl
  exact absurd h.1 (by decide)
 have hasc:isAsciiSpace c=false:=by
  simp [isAsciiSpace,hsp]
  omega
 simp [isRustSpace,hasc]
 omega

theorem graphic_of_isDigit (h:c.isDigit=true) : 33 ≤ c.toNat ∧ c.toNat < 127 := by
 have hdi:=toNat_of_isDigit h
 omega

theorem graphic_of_all {text : List Char}
 (h:text.all (fun c=>Nat.ble 33 c.toNat && Nat.blt c.toNat 127)=true) :
 ∀c∈text,33 ≤ c.toNat ∧ c.toNat < 127 := by
 intro c hc
 simpa using all_eq_true.mp h c hc

theorem trimBy_graphic {before text after : List Char}
 (hb:∀c∈before,isAsciiSpace c=true) (haf:∀c∈after,isAsciiSpace c=true)
 (hne:text≠[]) (htext:∀c∈text,33 ≤ c.toNat ∧ c.toNat < 127) :
 trimBy isRustSpace (before++(text++after))=text ∧
  trimBy isAsciiSpace (before++(text++after))=text := by
 have hr:∀c,isAsciiSpace c=true → isRustSpace c=true:=fun c hc=>by
  simp [isRustSpace,hc]
 exact ⟨trimBy_padded (fun c hc=>hr c (hb c hc)) (fun c hc=>hr c (haf c hc)) hne
  fun c hc=>(isRustSpace_of_graphic (htext c hc)).1,
  trimBy_padded hb haf hne fun c hc=>(isRustSpace_of_graphic (htext c hc)).2⟩

theorem splitOnce_append {name rest : List Char} (h : ':' ∉ name) :
 splitOnce (name ++ ':' :: rest)=some (name,rest) := by
 induction name with
 | nil => rfl
 | cons c name ih =>
  have hc:c ≠ ':' := fun he=>h (he ▸ mem_cons_self)
  rw [cons_append,splitOnce,if_neg hc,ih fun hm=>h (mem_cons_of_mem _ hm)]
  rfl

theorem nameLine_eq (name : String) (value post : List Char) :
 (name ++ ": ").toList ++ value ++ post=name.toList ++ ':' :: ([' '] ++ (value ++ post)) := by
 rw [String.toList_append]
 simp

theorem splitOnce_lengthLine (n : Nat) (post : List Char) :
 splitOnce (lengthLine n++post) =
  some ("Content-Length".toList,[' '] ++ (digits n ++ post)) := by
 have hn : ':' ∉ "Content-Length".toList := by
  decide
 rw [←splitOnce_append hn,←nameLine_eq]
 rfl

theorem splitOnce_typeLine (codec : Codec) (post : List Char) :
 splitOnce (typeLine codec++post) =
  some ("Content-Type".toList,[' '] ++ ((contentTypeForCodec codec).toList ++ post)) := by
 have hn : ':' ∉ "Content-Type".toList := by
  decide
 rw [←splitOnce_append hn,←nameLine_eq]
 rfl

theorem normalized_name {name normal : String} (hne:name.toList≠[])
 (hgr:∀c∈name.toList,33 ≤ c.toNat ∧ c.toNat < 127)
 (hl:lowercase name.toList=normal.toList) :
 lowercase (trimBy isRustSpace name.toList)=normal.toList ∧
  lowercase (trimBy isAsciiSpace name.toList)=normal.toList := by
 have htr:=@trimBy_graphic [] name.toList [] (by simp) (by simp) hne hgr
 rw [nil_append,append_nil] at htr
 rw [htr.1,htr.2]
 exact ⟨hl,hl⟩

theorem name_contentLength :
 lowercase (trimBy isRustSpace "Content-Length".toList) = "content-length".toList ∧
  lowercase (trimBy isAsciiSpace "Content-Length".toList) = "content-length".toList := by
 apply normalized_name
 · simp
 · apply graphic_of_all
   rfl
 · simp only [String.reduceToList]
   rfl

theorem name_contentType :
 lowercase (trimBy isRustSpace "Content-Type".toList) = "content-type".toList ∧
  lowercase (trimBy isAsciiSpace "Content-Type".toList) = "content-type".toList := by
 apply normalized_name
 · simp
 · apply graphic_of_all
   rfl
 · simp only [String.reduceToList]
   rfl

theorem names_differ : "content-type".toList ≠ "content-length".toList := by
 decide

theorem all_isDigit_digits (n : Nat) : (digits n).all Char.isDigit=true :=
 all_eq_true.mpr fun _ hc=>isDigit_of_mem_digits hc

section
variable {contentType : Option Codec} {body rest : Bytes} {maxFrameBytes : Nat}

theorem length_headerBytes (lines : List (List Char)) :
 (headerBytes lines).length=(joinCrlf lines).length+4 := by
 simp [headerBytes,asciiBytes]

theorem frameOf_append (tail : Bytes) : frameOf contentType body++tail =
 headerBytes (headerLines contentType body.length)++(body++tail) := append_assoc _ _ _

end

theorem readLine_line {line : Bytes} (h:(10 : UInt8) ∉ line) (rest : Bytes) :
 readLine (line++10::rest)=(line++[10],rest) := by
 induction line with
 | nil => simp [readLine]
 | cons b line ih =>
  have hb:b≠10:=fun he=>h (he ▸ mem_cons_self)
  have ih:=ih fun hm=>h (mem_cons_of_mem _ hm)
  rw [cons_append,readLine,if_neg hb,ih]
  rfl

theorem readLine_plain (h:PlainLine line) (rest : Bytes) :
 readLine (asciiBytes line++13::10::rest) =
  (asciiBytes (line ++ ['\r','\n']),rest) := by
 have hf:(10 : UInt8) ∉ asciiBytes line++[13]:=by
  have hl:=asciiBytes_notMem h.ascii (by decide : '\n'.toNat < 128) h.noFeed
  simpa using hl
 have hread:=readLine_line hf rest
 rw [append_assoc,singleton_append] at hread
 rw [hread,asciiBytes_append,append_assoc]
 rfl

section
variable {blank : List Char → Bool} {takeLength : Option Nat → List Char → Except ReadError Nat}
 {contentLength : Option Nat} {line : List Char} {rest : Bytes} {n : Nat}

theorem readHeaders_line (hl:PlainLine line) (hb:blank (line ++ ['\r','\n'])=false)
 {key value : List Char} (hsp:splitOnce (line ++ ['\r','\n'])=some (key,value)) :
 readHeaders blank takeLength (n+1) contentLength (asciiBytes line++13::10::rest) =
  if isHeader key "Content-Length" then do
   let length ← takeLength contentLength (trimBy isRustSpace value)
   readHeaders blank takeLength n (some length) rest
  else readHeaders blank takeLength n contentLength rest := by
 have hasc:IsAscii (line ++ ['\r','\n']) := by
  intro c hc
  rcases mem_append.mp hc with hc|hc
  · exact hl.ascii c hc
  · rcases mem_pair.mp hc with rfl|rfl <;> decide
 have hne:asciiBytes (line ++ ['\r','\n']) ≠ [] := by simp [asciiBytes]
 rw [readHeaders,readLine_plain hl]
 simp [utf8Text_asciiBytes hasc,hne,hb,hsp]

theorem readHeaders_end (hb:blank ['\r','\n']=true) :
 readHeaders blank takeLength (n+1) contentLength (13::10::rest) =
  .ok (contentLength,rest) := by
 have hasc:IsAscii ['\r','\n'] := by
  intro c hc
  rcases mem_pair.mp hc with rfl|rfl <;> decide
 have hby:([13,10] : Bytes)=asciiBytes ['\r','\n'] := rfl
 have hread:readLine (13::10::rest)=([13,10],rest):=by simp [readLine]
 rw [readHeaders,hread]
 simp only [hby,utf8Text_asciiBytes hasc,hb]
 simp [asciiBytes]

theorem isHeader_contentLength : isHeader "Content-Length".toList "Content-Length" = true := by
 have hl:lowercase "Content-Length".toList = "content-length".toList := by
  simp only [String.reduceToList]
  rfl
 simp only [isHeader,name_contentLength.1,hl,decide_true]

theorem isHeader_contentType : isHeader "Content-Type".toList "Content-Length" = false := by
 have hl:lowercase "Content-Length".toList = "content-length".toList := by
  simp only [String.reduceToList]
  rfl
 simp only [isHeader,name_contentType.1,hl,names_differ,decide_false]

theorem readHeaders_frame (contentType : Option Codec) {length : Nat}
 (hen:blank ['\r','\n']=true)
 (hbl:∀line,PlainLine line → blank (line ++ ['\r','\n'])=false)
 (hta:takeLength none (digits length) = .ok length) :
 readHeaders blank takeLength (n+3) none
  (headerBytes (headerLines contentType length)++rest) = .ok (some length,rest) := by
 have hvalue:=(@trimBy_graphic [' '] (digits length) ['\r','\n'] (by simp [isAsciiSpace])
  (by simp [isAsciiSpace]) (digits_ne_nil length) fun c hc=>
   graphic_of_isDigit (isDigit_of_mem_digits hc)).1
 have hf:∀tail : Bytes,readHeaders blank takeLength (n+3) none
  (asciiBytes (lengthLine length)++13::10::tail) =
  readHeaders blank takeLength (n+2) (some length) tail := fun tail=>by
  rw [readHeaders_line (plainLine_lengthLine length) (hbl _ (plainLine_lengthLine length))
   (splitOnce_lengthLine length _),isHeader_contentLength,if_pos rfl,hvalue,hta]
  rfl
 cases contentType with
 | none =>
  have hb:headerBytes (headerLines none length)++rest =
   asciiBytes (lengthLine length)++13::10::13::10::rest := by
   simp [headerBytes,headerLines,joinCrlf]
  rw [hb,hf,readHeaders_end hen]
 | some codec =>
  have hb:headerBytes (headerLines (some codec) length)++rest =
   asciiBytes (lengthLine length)++13::10 ::
    (asciiBytes (typeLine codec)++13::10::13::10::rest) := by
   simp [headerBytes,headerLines,joinCrlf,asciiBytes]
  rw [hb,hf,readHeaders_line (plainLine_typeLine codec)
   (hbl _ (plainLine_typeLine codec)) (splitOnce_typeLine codec _),isHeader_contentType,
   if_neg Bool.false_ne_true,readHeaders_end hen]

end

section
variable {body rest : Bytes} {maxFrameBytes : Nat}

theorem readBody_append : readBody body.length (body++rest) = .ok (body,rest) := by
 simp [readBody]

theorem exists_fuel (contentType : Option Codec) (body rest : Bytes) :
 ∃n,(frameOf contentType body++rest).length+1=n+3 :=
 ⟨(frameOf contentType body++rest).length-2,by
  simp only [frameOf,length_append,length_headerBytes]
  omega⟩

theorem readFrame_frameOf (contentType : Option Codec) (hma:maxFrameBytes < 2^64)
 (hl:body.length ≤ maxFrameBytes) :
 readFrame maxFrameBytes (frameOf contentType body++rest) = .ok (body,rest) := by
 have hta:takeFrameLength none (digits body.length) = .ok body.length:=by
  have hp:¬((none : Option Nat).isSome=true ∨ digits body.length=[] ∨
   ¬(digits body.length).all Char.isDigit=true) := by
   simp [digits_ne_nil,all_isDigit_digits]
  rw [takeFrameLength,if_neg hp,ofDigitChars_digits,if_pos (by omega)]
 obtain ⟨n,hn⟩:=exists_fuel contentType body rest
 have hh:=@readHeaders_frame (fun line=>line=['\r','\n']) takeFrameLength
  (body++rest) n contentType body.length (by simp) ?_ hta
 · rw [readFrame,hn,frameOf_append,hh]
   simp [bind,Except.bind,if_neg (Nat.not_lt.mpr hl),readBody_append]
 · intro line hli
   have := hli.nonempty
   simpa using this

end

end DhKit.Bridge
