import DhKit.BridgeServer

/-!
# One response to each request

The router answers every request with its id, or with `null` where there is none, and the loop
writes every answer that fits.
-/
namespace DhKit.Bridge
open JsonRpc List

theorem get_okResult (id : Option Json) (result : Json) :
 (okResult id result).get "id" = some (id.getD .null) := rfl

theorem get_toResponse (e : BridgeRpcError) (id : Option Json) :
 (e.toResponse id).get "id" = some (id.getD .null) := rfl

theorem get_outcome (outcome : Outcome) (id : Option Json) :
 (outcome.toResponse id).get "id" = some (id.getD .null) := by
 cases outcome <;> rfl

section
variable {σ : Type} (engine : Engine σ) (request : RpcRequest) (s : σ)

theorem routeWorkerQuery_id :
 (routeWorkerQuery engine request s).1.get "id" = some (request.id.getD .null) := by
 unfold routeWorkerQuery
 split
 · exact get_toResponse _ _
 · exact get_outcome _ _

theorem answerCommand_id {id : Option Json} {delegated : Json} (queryMethod : String)
 (h:delegated.get "id" = some (id.getD .null)) :
 (answerCommand engine id queryMethod delegated s).1.get "id" = some (id.getD .null) := by
 unfold answerCommand
 dsimp only
 split
 · exact h
 · split
   · exact get_toResponse _ _
   · exact get_okResult _ _

theorem runCommand_id :
 (runCommand engine request s).1.get "id" = some (request.id.getD .null) := by
 unfold runCommand
 dsimp only
 split
 · exact get_toResponse _ _
 split
 · exact get_toResponse _ _
 · split
   · exact get_toResponse _ _
   · exact answerCommand_id engine _ _ (routeWorkerQuery_id engine _ _)

theorem handleRequest_id :
 (handleRequest engine request s).1.get "id" = some (request.id.getD .null) := by
 unfold handleRequest
 split
 · split
   · exact get_okResult _ _
   · exact get_toResponse _ _
 · exact get_okResult _ _
 · exact get_okResult _ _
 · exact get_okResult _ _
 · exact get_okResult _ _
 · exact runCommand_id engine request s
 · split
   · exact get_outcome _ _
   · exact get_toResponse _ _

theorem respond_id (transport : BridgeTransportState) :
 (respond engine transport request s).1.get "id" = some (request.id.getD .null) := by
 unfold respond
 split
 · split
   · exact get_okResult _ _
   · exact get_toResponse _ _
 · exact handleRequest_id engine request s

end

/-- The reader takes the frame off the front of its input and finds `body` in it. -/
def WellFramed (frame body : Bytes) : Prop :=
 ∀ maxFrameBytes rest,isValidBridgeMaxFrameBytes maxFrameBytes = true →
  body.length ≤ maxFrameBytes → readFrame maxFrameBytes (frame++rest) = .ok (body,rest)

variable {maxFrameBytes : Nat}

theorem le_of_isValid (h:isValidBridgeMaxFrameBytes maxFrameBytes=true) :
 maxFrameBytes ≤ defaultBridgeMaxFrameBytes :=
 of_decide_eq_true (Bool.and_eq_true_iff.mp h).2

theorem wellFramed_frameOf (contentType : Option Codec) (body : Bytes) :
 WellFramed (frameOf contentType body) body := by
 intro maxFrameBytes rest hv hl
 have hsm:defaultBridgeMaxFrameBytes < 2^64:=by decide
 exact readFrame_frameOf contentType (Nat.lt_of_le_of_lt (le_of_isValid hv) hsm) hl

structure Inbound where
 frame : Bytes
 body : Bytes
 framed : WellFramed frame body

theorem Inbound.frame_ne_nil (message : Inbound)
 (h:message.body.length ≤ defaultBridgeMaxFrameBytes) : message.frame≠[] := by
 intro hn
 have hread:=message.framed defaultBridgeMaxFrameBytes [] (by decide) h
 rw [hn] at hread
 cases hread

section
variable {σ : Type} (wire : Wire Json) (osError : ReadError → String) (engine : Engine σ)
 {transport : BridgeTransportState} {requests : List RpcRequest} {response : Json}
 {request : RpcRequest} {messages : List Inbound} {s : σ}

/-- The messages carry the requests: each fits the limit and decodes under the codec that are in
force when it is read. -/
def Carries : BridgeTransportState → σ → List Inbound → List RpcRequest → Prop
 | _,_,[],[] => True
 | transport,s,message::messages,request::requests =>
  message.body.length ≤ transport.maxFrameBytes ∧
  decodeRpcRequest wire transport.codec message.body = some request ∧
  Carries (respond engine transport request s).2.1 (respond engine transport request s).2.2
   messages requests
 | _,_,_,_ => False

/-- What the loop does with the requests, one after another. -/
def serveAll : BridgeTransportState → σ → List RpcRequest → List Event × Except String Unit
 | _,_,[] => ([],.ok ())
 | transport,s,request::requests =>
  let (response,transport,s) := respond engine transport request s
  match writeRpcResponse wire transport.codec response transport.maxFrameBytes with
  | .error text => ([.received request],.error text)
  | .ok frame =>
   if request.method = "dh.shutdown" then ([.received request,.wrote response frame],.ok ())
   else
    let (later,outcome) := serveAll transport s requests
    (.received request :: .wrote response frame::later,outcome)

/-- Only the last request may be `dh.shutdown`, and without it the input ends. -/
def EndsWell : List RpcRequest → Bytes → Prop
 | [],tail => tail = []
 | [request],tail => request.method = "dh.shutdown" ∨ tail = []
 | request::next::requests,tail =>
  request.method ≠ "dh.shutdown" ∧ EndsWell (next :: requests) tail

theorem selectCodec_maxFrameBytes {transportParams : InitializeTransportParams}
 (h:selectCodec engine transportParams maxFrameBytes = .ok transport) :
 transport.maxFrameBytes=maxFrameBytes := by
 unfold selectCodec at h
 dsimp only at h
 split at h
 · cases h
   rfl
 split at h
 · cases h
   rfl
 split at h
 · cases h
 · cases h
   rfl

theorem negotiateTransport_valid {params : Json}
 (h:negotiateTransport engine params = .ok transport) :
 isValidBridgeMaxFrameBytes transport.maxFrameBytes=true := by
 unfold negotiateTransport at h
 cases hp : initializeTransportParams engine params with
 | error e =>
  rw [hp] at h
  cases h
 | ok transportParams =>
  rw [hp] at h
  dsimp only at h
  split at h
  · cases h
  · rename_i hv
    rw [selectCodec_maxFrameBytes engine h]
    simpa using hv

theorem EndsWell.tail {tail : Bytes}
 (h:EndsWell (request :: requests) tail) (hgo:request.method ≠ "dh.shutdown") :
 EndsWell requests tail := by
 cases requests with
 | nil => exact h.resolve_left hgo
 | cons next requests => exact h.2

theorem respond_valid (request : RpcRequest) (s : σ)
 (h:isValidBridgeMaxFrameBytes transport.maxFrameBytes=true) :
 isValidBridgeMaxFrameBytes
  (respond engine transport request s).2.1.maxFrameBytes=true := by
 unfold respond
 split
 · cases hn : negotiateTransport engine request.params with
   | error e => exact h
   | ok next => exact negotiateTransport_valid engine hn
 · exact h

theorem serve_stream {tail : Bytes} {n : Nat}
 (hv:isValidBridgeMaxFrameBytes transport.maxFrameBytes=true)
 (hca:Carries wire engine transport s messages requests) (hen:EndsWell requests tail)
 (hn:requests.length < n) :
 serve wire osError engine n transport s (messages.flatMap Inbound.frame++tail) =
  serveAll wire engine transport s requests := by
 induction requests generalizing messages transport s n with
 | nil =>
  cases messages with
  | cons message messages => exact hca.elim
  | nil =>
   obtain ⟨n,rfl⟩:=Nat.exists_eq_succ_of_ne_zero (Nat.ne_of_gt hn)
   obtain rfl : tail=[] := hen
   rfl
 | cons request requests ih =>
  cases messages with
  | nil => exact hca.elim
  | cons message messages =>
   obtain ⟨hle,hde,hl⟩:=hca
   obtain ⟨n,rfl⟩:=Nat.exists_eq_succ_of_ne_zero (Nat.ne_zero_of_lt hn)
   have hread:readRpcRequest wire osError transport.codec transport.maxFrameBytes
    ((message::messages).flatMap Inbound.frame++tail) =
    .ok (request,messages.flatMap Inbound.frame++tail) := by
    rw [flatMap_cons,append_assoc,readRpcRequest,
     message.framed _ _ hv hle]
    simp [hde]
   rw [serve,serveAll,hread]
   dsimp only
   cases writeRpcResponse wire (respond engine transport request s).2.1.codec
    (respond engine transport request s).1
    (respond engine transport request s).2.1.maxFrameBytes with
   | error text => rfl
   | ok frame =>
    dsimp only
    split
    · rfl
    rename_i hgo
    have hr:=ih (respond_valid engine request s hv) hl (hen.tail hgo)
     (Nat.lt_of_succ_lt_succ hn)
    rw [hr]

def Fits (transport : BridgeTransportState) (response : Json) : Prop :=
 (wire.encodeRust transport.codec response).length ≤ transport.maxFrameBytes

/-- What is asked of the server: every request is taken, in order; one with an id is answered by one
frame with that id, the router's answer where it fits and an error where it does not; one without an
id is not answered. -/
def Disciplined : BridgeTransportState → σ → List RpcRequest → List Event → Prop
 | _,_,[],events => events = []
 | transport,s,request::requests,events =>
  let (response,transport,s) := respond engine transport request s
  ∃ later,Disciplined transport s requests later ∧
   match request.id with
   | none => events = .received request::later
   | some id => ∃ answer frame,events = .received request :: .wrote answer frame::later ∧
    answer.get "id" = some id ∧
    writeRpcResponse wire transport.codec answer transport.maxFrameBytes = .ok frame ∧
    (Fits wire transport response → answer = response) ∧
    (¬Fits wire transport response → (answer.get "error").isSome = true)

/-- Every request has an id, and the answer to each fits. -/
def Answerable : BridgeTransportState → σ → List RpcRequest → Prop
 | _,_,[] => True
 | transport,s,request::requests =>
  let (response,transport,s) := respond engine transport request s
  request.id.isSome = true ∧ Fits wire transport response ∧ Answerable transport s requests

theorem not_disciplined_wrote {frame : Bytes} {events : List Event} :
 ¬Disciplined wire engine transport s requests (.wrote response frame::events) := by
 cases requests with
 | nil => exact cons_ne_nil _ _
 | cons request requests =>
  rintro ⟨later,-,h⟩
  split at h
  · cases h
  · obtain ⟨answer,frame',h,-⟩:=h
    cases h

theorem writeRpcResponse_of_fits (h:Fits wire transport response) :
 writeRpcResponse wire transport.codec response transport.maxFrameBytes =
  .ok (frameOf (some transport.codec) (wire.encodeRust transport.codec response)) :=
 writeRpcResponse_eq wire _ _ h

theorem writeRpcResponse_of_not_fits (h:¬Fits wire transport response) : ∃text,
  writeRpcResponse wire transport.codec response transport.maxFrameBytes = .error text :=
 ⟨_,if_pos (Nat.not_le.mp h)⟩

theorem serveAll_of_fits {tail : Bytes} {transport' : BridgeTransportState} {s' : σ}
 (hen:EndsWell (request::requests) tail)
 (hr:respond engine transport request s=(response,transport',s'))
 (hf:Fits wire transport' response) :
 (∃tail',EndsWell requests tail') ∧
 serveAll wire engine transport s (request::requests) =
  (.received request :: .wrote response
   (frameOf (some transport'.codec) (wire.encodeRust transport'.codec response)) ::
   (serveAll wire engine transport' s' requests).1,
   (serveAll wire engine transport' s' requests).2) := by
 rw [serveAll,hr]
 dsimp only
 rw [writeRpcResponse_of_fits wire hf]
 dsimp only
 by_cases hsh : request.method = "dh.shutdown"
 · rw [if_pos hsh]
   cases requests with
   | nil => exact ⟨⟨[],rfl⟩,rfl⟩
   | cons next requests => exact absurd hsh hen.1
 · rw [if_neg hsh]
   exact ⟨⟨tail,hen.tail hsh⟩,rfl⟩

theorem serveAll_disciplined_iff {tail : Bytes}
 (hen:EndsWell requests tail) (transport : BridgeTransportState) (s : σ) :
 (Disciplined wire engine transport s requests (serveAll wire engine transport s requests).1 ∧
  (serveAll wire engine transport s requests).2 = .ok ()) ↔
 Answerable wire engine transport s requests := by
 induction requests generalizing transport s tail with
 | nil => exact ⟨fun _=>trivial,fun _=>⟨rfl,rfl⟩⟩
 | cons request requests ih =>
  have hid:=respond_id engine request s transport
  obtain ⟨response,transport',s',hr⟩ : ∃response transport' s',
   respond engine transport request s=(response,transport',s') := ⟨_,_,_,rfl⟩
  rw [hr] at hid
  by_cases hf : Fits wire transport' response
  swap
  · -- the response does not fit, and the loop ends with an error
    obtain ⟨text,htext⟩:=writeRpcResponse_of_not_fits wire hf
    rw [serveAll,Answerable,hr]
    simp only [htext,hf,false_and,and_false,iff_false]
    rintro ⟨-,h⟩
    cases h
  obtain ⟨⟨tail',hre⟩,hse⟩:=serveAll_of_fits wire engine hen hr hf
  rw [hse,Disciplined,Answerable,hr]
  simp only [hf,true_and,←ih hre transport' s']
  constructor
  · rintro ⟨⟨later,hl,h⟩,hok⟩
    cases hri : request.id with
    | none =>
     -- an answer was written that nobody asked for
     rw [hri] at h
     cases h
     exact absurd hl (not_disciplined_wrote wire engine)
    | some id =>
     rw [hri] at h
     obtain ⟨answer,frame,hev,-⟩:=h
     cases hev
     exact ⟨rfl,hl,hok⟩
  · rintro ⟨hso,hl,hok⟩
    obtain ⟨id,hri⟩:=Option.isSome_iff_exists.mp hso
    refine ⟨⟨_,hl,?_⟩,hok⟩
    rw [hri] at hid ⊢
    exact ⟨response,_,rfl,hid,writeRpcResponse_of_fits wire hf,fun _=>rfl,
     fun hn=>absurd trivial hn⟩

theorem Carries.length_le (hv:isValidBridgeMaxFrameBytes transport.maxFrameBytes=true)
 (h:Carries wire engine transport s messages requests) :
 requests.length ≤ (messages.flatMap Inbound.frame).length := by
 induction requests generalizing messages transport s with
 | nil => exact Nat.zero_le _
 | cons request requests ih =>
  cases messages with
  | nil => exact h.elim
  | cons message messages =>
   obtain ⟨hle,-,hl⟩:=h
   have hr:=ih (respond_valid engine request s hv) hl
   have hp:=length_pos_iff.mpr
    (message.frame_ne_nil (Nat.le_trans hle (le_of_isValid hv)))
   rw [flatMap_cons,length_append,length_cons]
   omega

theorem runBridgeServer_stream {tail : Bytes}
 (hca:Carries wire engine .initial s messages requests) (hen:EndsWell requests tail) :
 runBridgeServer wire osError engine s (messages.flatMap Inbound.frame++tail) =
  serveAll wire engine .initial s requests := by
 have hv:isValidBridgeMaxFrameBytes BridgeTransportState.initial.maxFrameBytes=true:=by
  decide
 refine serve_stream wire osError engine hv hca hen ?_
 have := hca.length_le wire engine hv
 rw [length_append]
 omega

/-- The server answers as it is asked to exactly when every request has an id and every answer
fits. -/
theorem bridgeServer_disciplined_iff (s : σ) (messages : List Inbound) (requests : List RpcRequest)
 (tail : Bytes) (hcarries : Carries wire engine .initial s messages requests)
 (hend : EndsWell requests tail) :
 (Disciplined wire engine .initial s requests
  (runBridgeServer wire osError engine s (messages.flatMap Inbound.frame++tail)).1 ∧
  (runBridgeServer wire osError engine s (messages.flatMap Inbound.frame++tail)).2 = .ok ()) ↔
 Answerable wire engine .initial s requests := by
 rw [runBridgeServer_stream wire osError engine hcarries hend]
 exact serveAll_disciplined_iff wire engine hend .initial s

end

mutual

/-- The text of a value, for texts that need no escapes. -/
def jsonText : Json → List Char
 | .null => "null".toList
 | .bool value => (if value then "true" else "false").toList
 | .unsigned value => digits value
 | .number text => text.toList
 | .string text => '"' :: text.toList ++ ['"']
 | .array items => '[' :: itemsText items ++ [']']
 | .object fields => '\x7b' :: fieldsText fields ++ ['\x7d']

def itemsText : List Json → List Char
 | [] => []
 | [item] => jsonText item
 | item :: next :: items => jsonText item ++ ',' :: itemsText (next :: items)

def fieldsText : List (String × Json) → List Char
 | [] => []
 | [(key,value)] => '"' :: key.toList ++ '"' :: ':' :: jsonText value
 | (key,value)::next::fields =>
  '"' :: key.toList ++ '"' :: ':' :: jsonText value ++ ',' :: fieldsText (next :: fields)

end

def textWire (known : List Json) : Wire Json :=
 let encode := fun (_ : Codec) value => asciiBytes (jsonText value)
 let decode := fun (_ : Codec) bytes => known.find? fun value => asciiBytes (jsonText value) = bytes
 ⟨encode,encode,decode,decode⟩

/-- An engine on an empty database whose queries find `found`. -/
def quietEngine (found : Json) : Engine Unit where
 workspace := "/"
 serverVersion := "0"
 bridgeCodec := none
 invalidTransport := fun _ => ""
 languageCapabilityMatrix := .array []
 lifecycleContract := .object []
 workerProtocolContract := .object []
 dispatch := fun _ _ s => (⟨.passthrough,.null,""⟩,s)
 query := fun _ _ s => (.result found,s)

def inboundOf (value : Json) : Inbound where
 frame := frameOf (some .json) (asciiBytes (jsonText value))
 body := asciiBytes (jsonText value)
 framed := wellFramed_frameOf _ _

def requestOf (id method : String) : Json :=
 .object [("id",.string id),("method",.string method)]

def ping : Json := requestOf "p" "runtime.ping"

def pingRequest : RpcRequest := ⟨some (.string "p"),"runtime.ping",.object []⟩

def pong (id : Option Json) : Json :=
 okResult id (.object [("ok",.bool true),("workerState",.string "ready"),
  ("healthState",.string "healthy"),("phase",.string "health")])

theorem fits_pong (known : List Json) :
 Fits (textWire known) .initial (pong (some (.string "p"))) := by
 simp [Fits,textWire,pong,okResult,jsonText,fieldsText,asciiBytes,BridgeTransportState.initial,
  defaultBridgeMaxFrameBytes]

theorem length_ping : (inboundOf ping).body.length ≤ defaultBridgeMaxFrameBytes := by
 simp [inboundOf,ping,requestOf,jsonText,fieldsText,asciiBytes,defaultBridgeMaxFrameBytes]

/-- A ping with an id. -/
theorem bridgeServer_disciplined_iff_ping :
 Disciplined (textWire [ping]) (quietEngine .null) .initial () [pingRequest]
  (runBridgeServer (textWire [ping]) (fun _ => "") (quietEngine .null) ()
   ([inboundOf ping].flatMap Inbound.frame++[])).1 := by
 have hde:decodeRpcRequest (textWire [ping]) .json (inboundOf ping).body =
  some pingRequest := by
  rfl
 exact ((bridgeServer_disciplined_iff (textWire [ping]) (fun _ => "") (quietEngine .null) ()
  [inboundOf ping] [pingRequest] [] ⟨length_ping,hde,trivial⟩ (.inr rfl)).mpr
   ⟨rfl,fits_pong [ping],trivial⟩).1

def notice : Json := .object [("method",.string "runtime.ping")]

def noticeRequest : RpcRequest := ⟨none,"runtime.ping",.object []⟩

def search : Json := requestOf "q" "query.search"

def searchRequest : RpcRequest := ⟨some (.string "q"),"query.search",.object []⟩

def filler (n : Nat) : Json := .string (String.ofList (List.replicate n 'a'))

theorem not_fits_filler {n : Nat} (h:defaultBridgeMaxFrameBytes ≤ n) (known : List Json) :
 ¬Fits (textWire known) .initial (okResult (some (.string "q")) (filler n)) := by
 simp only [Fits,textWire,filler,okResult,jsonText,fieldsText,asciiBytes,length_map,
  BridgeTransportState.initial,String.toList_ofList,length_append,length_cons,length_replicate]
 omega

theorem run_notice :
 runBridgeServer (textWire [notice]) (fun _ => "") (quietEngine .null) ()
  ([inboundOf notice].flatMap Inbound.frame++[]) =
 ([.received noticeRequest,.wrote (pong none) (frameOf (some .json)
  (asciiBytes (jsonText (pong none))))],.ok ()) := by
 have hl:(inboundOf notice).body.length ≤ defaultBridgeMaxFrameBytes:=by
  simp [inboundOf,notice,jsonText,fieldsText,asciiBytes,defaultBridgeMaxFrameBytes]
 have hde:decodeRpcRequest (textWire [notice]) .json (inboundOf notice).body =
  some noticeRequest := by
  rfl
 have hf:Fits (textWire [notice]) .initial (pong none):=by
  simp [Fits,textWire,pong,okResult,jsonText,fieldsText,asciiBytes,BridgeTransportState.initial,
   defaultBridgeMaxFrameBytes]
 have hca:Carries (textWire [notice]) (quietEngine .null) .initial () [inboundOf notice]
  [noticeRequest] := ⟨hl,hde,trivial⟩
 have hen:EndsWell [noticeRequest] []:=.inr rfl
 rw [runBridgeServer_stream _ _ _ hca hen]
 exact (serveAll_of_fits (textWire [notice]) (quietEngine .null) hen rfl hf).2

theorem run_search {n : Nat} (hn:defaultBridgeMaxFrameBytes ≤ n) :
 ∃text,runBridgeServer (textWire [search,ping]) (fun _ => "") (quietEngine (filler n)) ()
  ([inboundOf search,inboundOf ping].flatMap Inbound.frame++[]) =
 ([.received searchRequest],.error text) := by
 have hl:(inboundOf search).body.length ≤ defaultBridgeMaxFrameBytes:=by
  simp [inboundOf,search,requestOf,jsonText,fieldsText,asciiBytes,defaultBridgeMaxFrameBytes]
 have hde:decodeRpcRequest (textWire [search,ping]) .json (inboundOf search).body =
  some searchRequest := by
  rfl
 have hde':decodeRpcRequest (textWire [search,ping]) .json (inboundOf ping).body =
  some pingRequest := by
  rfl
 have hca:Carries (textWire [search,ping]) (quietEngine (filler n)) .initial ()
  [inboundOf search,inboundOf ping] [searchRequest,pingRequest] :=
  ⟨hl,hde,length_ping,hde',trivial⟩
 obtain ⟨text,htext⟩:=writeRpcResponse_of_not_fits (textWire [search,ping])
  (not_fits_filler hn [search,ping])
 have hr:respond (quietEngine (filler n)) .initial searchRequest () =
  (okResult (some (.string "q")) (filler n),.initial,()) := rfl
 have hen:EndsWell [searchRequest,pingRequest] []:=⟨by decide,.inr rfl⟩
 refine ⟨text,?_⟩
 rw [runBridgeServer_stream _ _ _ hca hen]
 simp [serveAll,hr,htext]

/-- A notification is answered; and an answer that does not fit ends the server, the ping that
follows the request is not served. -/
theorem bridgeServer_undisciplined :
 ¬Disciplined (textWire [notice]) (quietEngine .null) .initial () [noticeRequest]
  (runBridgeServer (textWire [notice]) (fun _ => "") (quietEngine .null) ()
   ([inboundOf notice].flatMap Inbound.frame++[])).1 ∧
 ∃ n text,runBridgeServer (textWire [search,ping]) (fun _ => "") (quietEngine (filler n)) ()
  ([inboundOf search,inboundOf ping].flatMap Inbound.frame++[]) =
   ([.received searchRequest],.error text) := by
 refine ⟨?_,defaultBridgeMaxFrameBytes,?_⟩
 · rw [run_notice]
   rintro ⟨later,hl,h⟩
   obtain rfl : later=[] := hl
   cases h
 · exact run_search (Nat.le_refl _)

end DhKit.Bridge
