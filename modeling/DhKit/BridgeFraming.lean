import Mathlib.Algebra.Group.Nat.Defs
import DhKit.StreamFrames

/-!
# Frames of the bridge and of the worker protocol

A message is written as a header, an empty line and a body whose length the header tells.
-/
namespace DhKit.Bridge
open StreamFrames

abbrev Bytes := List UInt8

inductive Codec where
 | json | msgpack
deriving DecidableEq

def Codec.wireName : Codec → String
 | .json => "json-rpc-v1"
 | .msgpack => "msgpack-rpc-v1"

def contentTypeForCodec : Codec → String
 | .json => "application/vscode-jsonrpc; charset=utf-8"
 | .msgpack => "application/x-msgpack; bridge=dh-jsonrpc; version=1"

def defaultBridgeMaxFrameBytes : Nat := 16*1024*1024

def minBridgeMaxFrameBytes : Nat := 64*1024

def isValidBridgeMaxFrameBytes (value : Nat) : Bool :=
 minBridgeMaxFrameBytes ≤ value && value ≤ defaultBridgeMaxFrameBytes

structure Wire (V : Type) where
 encodeTs : Codec → V → Bytes
 encodeRust : Codec → V → Bytes
 decodeTs : Codec → Bytes → Option V
 decodeRust : Codec → Bytes → Option V

/-! ## Text -/

def asciiBytes (text : List Char) : Bytes := text.map fun c => UInt8.ofNat c.toNat

/-- `toString("ascii")`, which drops the high bit. -/
def asciiText (bytes : Bytes) : List Char := bytes.map fun b => Char.ofNat (b.toNat%128)

def utf8Text (bytes : Bytes) : Option (List Char) :=
 (String.fromUTF8? bytes.toByteArray).map String.toList

def trimBy (isSpace : Char → Bool) (text : List Char) : List Char :=
 ((text.dropWhile isSpace).reverse.dropWhile isSpace).reverse

def isAsciiSpace (c : Char) : Bool := c = ' ' || (9 ≤ c.toNat && c.toNat ≤ 13)

/-- `char::is_whitespace`. -/
def isRustSpace (c : Char) : Bool :=
 isAsciiSpace c || c.toNat ∈ [0x85,0xA0,0x1680,0x2028,0x2029,0x202F,0x205F,0x3000] ||
  (0x2000 ≤ c.toNat && c.toNat ≤ 0x200A)

def lowercase (text : List Char) : List Char := text.map Char.toLower

def splitOnce : List Char → Option (List Char × List Char)
 | [] => none
 | c :: rest => if c = ':' then some ([],rest) else (splitOnce rest).map fun r => (c :: r.1,r.2)

/-! ## Writers -/

section
variable {V : Type} (wire : Wire V)

def encodeRpcFrame (codec : Codec) (value : V) (maxFrameBytes : Nat) : Except String Bytes :=
 if !isValidBridgeMaxFrameBytes maxFrameBytes then
  .error ("maxFrameBytes must be an integer between " ++ toString minBridgeMaxFrameBytes ++
   " and " ++ toString defaultBridgeMaxFrameBytes ++ "; received " ++ toString maxFrameBytes ++
   ".")
 else
  let body := wire.encodeTs codec value
  if maxFrameBytes < body.length then
   .error ("RPC frame body is " ++ toString body.length ++ " bytes, exceeding maxFrameBytes=" ++
    toString maxFrameBytes ++ ".")
  else
   let header := "Content-Length: " ++ toString body.length ++ "\r\nContent-Type: " ++
    contentTypeForCodec codec ++ "\r\n\r\n"
   .ok (asciiBytes header.toList++body)

def writeRpcResponse (codec : Codec) (payload : V) (maxFrameBytes : Nat) : Except String Bytes :=
 let body := wire.encodeRust codec payload
 if maxFrameBytes < body.length then
  .error ("bridge response frame too large: " ++ toString body.length ++
   " bytes exceeds maxFrameBytes=" ++ toString maxFrameBytes)
 else
  let header := "Content-Length: " ++ toString body.length ++ "\r\nContent-Type: " ++
   contentTypeForCodec codec ++ "\r\n\r\n"
  .ok (asciiBytes header.toList++body)

end

/-! ## The reader of the TypeScript side -/

def findFrameHeaderEnd : Bytes → Option Nat
 | [] => none
 | b::rest =>
  if [13,10,13,10] <+: b::rest then some 0 else (findFrameHeaderEnd rest).map (· + 1)

def splitCrlf : List Char → List (List Char)
 | [] => [[]]
 | [c] => [[c]]
 | c::d::rest =>
  if c = '\r' ∧ d = '\n' then [] :: splitCrlf rest
  else match splitCrlf (d::rest) with
   | [] => [[c]]
   | line::lines => (c::line)::lines

structure BridgeFrameHeaders where
 contentLength : Option Nat
 contentType : Option (List Char)
 malformedContentLength : Bool
deriving DecidableEq

def parseFrameHeader (headers : BridgeFrameHeaders) (line : List Char) : BridgeFrameHeaders :=
 match splitOnce line with
 | none => headers
 | some ([],_) => headers
 | some (name,rest) =>
  let normalizedName := lowercase (trimBy isAsciiSpace name)
  let value := trimBy isAsciiSpace rest
  if normalizedName = "content-length".toList then
   if headers.contentLength.isSome ∨ value = [] ∨ ¬ value.all Char.isDigit then
    { headers with malformedContentLength := true,contentLength := none }
   else
    let parsed := Nat.ofDigitChars 10 value 0
    if parsed < 2^53 then { headers with contentLength := some parsed }
    else { headers with malformedContentLength := true,contentLength := none }
  else if normalizedName = "content-type".toList then { headers with contentType := some value }
  else headers

def parseFrameHeaders (header : List Char) : BridgeFrameHeaders :=
 (splitCrlf header).foldl parseFrameHeader ⟨none,none,false⟩

inductive FrameFault where
 | malformedContentLength
 | missingContentLength
 | tooLarge (contentLength : Nat)
deriving DecidableEq

/-- The part of `drainFrames` that the client and the worker share: the next frame of the
buffer. -/
def nextFrame (maxFrameBytes : Nat) (buffer : Bytes) : Front FrameFault Bytes UInt8 :=
 match findFrameHeaderEnd buffer with
 | none => .incomplete
 | some headerEnd =>
  let headers := parseFrameHeaders (asciiText (buffer.take headerEnd))
  if headers.malformedContentLength then .refused .malformedContentLength
  else match headers.contentLength with
   | none => .refused .missingContentLength
   | some contentLength =>
    if maxFrameBytes < contentLength then .refused (.tooLarge contentLength)
    else
     let bodyStart := headerEnd+4
     let frameLength := bodyStart+contentLength
     if buffer.length < frameLength then .incomplete
     else .frame ((buffer.take frameLength).drop bodyStart) (buffer.drop frameLength)

/-! ## The readers of the Rust side -/

/-- `read_line`: up to a line feed and with it, or to the end of the input. -/
def readLine : Bytes → Bytes × Bytes
 | [] => ([],[])
 | b::rest =>
  if b = 10 then ([b],rest)
  else (b::(readLine rest).1,(readLine rest).2)

def isHeader (key : List Char) (name : String) : Bool :=
 lowercase (trimBy isRustSpace key) = lowercase name.toList

inductive ReadError where
 | unreadableHeader
 | closed
 | invalidContentLength
 | missingContentLength
 | tooLarge (length : Nat)
 | truncatedBody
 | undecodable
deriving DecidableEq

/-- The loop over header lines; a line that is `blank` ends it. Every turn takes a line off
the input, so that the length of the input bounds their number. -/
def readHeaders (blank : List Char → Bool)
 (takeLength : Option Nat → List Char → Except ReadError Nat) :
 Nat → Option Nat → Bytes → Except ReadError (Option Nat × Bytes)
 | 0,_,_ => .error .closed
 | n+1,contentLength,input =>
  let (bytes,rest) := readLine input
  match utf8Text bytes with
  | none => .error .unreadableHeader
  | some line =>
   if bytes = [] then .error .closed
   else if blank line then .ok (contentLength,rest)
   else match splitOnce line with
    | none => readHeaders blank takeLength n contentLength rest
    | some (key,value) =>
     if isHeader key "Content-Length" then do
      let length ← takeLength contentLength (trimBy isRustSpace value)
      readHeaders blank takeLength n (some length) rest
     else readHeaders blank takeLength n contentLength rest

def readBody (length : Nat) (input : Bytes) : Except ReadError (Bytes × Bytes) :=
 if input.length < length then .error .truncatedBody
 else .ok (input.take length,input.drop length)

/-- `read_frame` refuses a second length and anything but digits. -/
def takeFrameLength (contentLength : Option Nat) (trimmed : List Char) : Except ReadError Nat :=
 if contentLength.isSome ∨ trimmed = [] ∨ ¬ trimmed.all Char.isDigit then
  .error .invalidContentLength
 else if Nat.ofDigitChars 10 trimmed 0 < 2^64 then .ok (Nat.ofDigitChars 10 trimmed 0)
 else .error .invalidContentLength

def readFrame (maxFrameBytes : Nat) (input : Bytes) : Except ReadError (Bytes × Bytes) := do
 let (contentLength,rest) ← readHeaders (fun line => line = ['\r','\n']) takeFrameLength
  (input.length+1) none input
 match contentLength with
 | none => .error .missingContentLength
 | some length =>
  if maxFrameBytes < length then .error (.tooLarge length) else readBody length rest

end DhKit.Bridge
