import DhKit.BridgeFrameReading
import DhKit.JsonRpc

/-!
# The bridge server

`run_bridge_server` has one request after another answered by the router.
-/
namespace DhKit.Bridge
open JsonRpc

/-! ## Errors and responses -/

structure BridgeRpcError where
 jsonrpcCode : Int
 symbolicCode : String
 message : String

variable (message : String)

namespace BridgeRpcError

def invalidRequest : BridgeRpcError := ⟨-32602,"INVALID_REQUEST",message⟩

def capabilityUnsupported : BridgeRpcError :=
 ⟨-32601,"CAPABILITY_UNSUPPORTED",message⟩

def accessDenied : BridgeRpcError := ⟨-32010,"ACCESS_DENIED",message⟩

def executionFailed : BridgeRpcError := ⟨-32013,"EXECUTION_FAILED",message⟩

def codecDecodeFailed : BridgeRpcError :=
 ⟨-32017,"BRIDGE_CODEC_DECODE_FAILED",message⟩

def frameTooLarge : BridgeRpcError :=
 ⟨-32018,"BRIDGE_FRAME_TOO_LARGE",message⟩

def codecNegotiationFailed : BridgeRpcError :=
 ⟨-32019,"BRIDGE_CODEC_NEGOTIATION_FAILED",message⟩

def toResponse (e : BridgeRpcError) (id : Option Json) : Json :=
 .object [("jsonrpc",.string "2.0"),("id",id.getD .null),("error",.object
  [("code",.number (toString e.jsonrpcCode)),("message",.string e.message),
   ("data",.object [("code",.string e.symbolicCode)])])]

end BridgeRpcError

def okResult (id : Option Json) (result : Json) : Json :=
 .object [("jsonrpc",.string "2.0"),("id",id.getD .null),("result",result)]

def internalError (id : Option Json) (message : String) : Json :=
 .object [("jsonrpc",.string "2.0"),("id",id.getD .null),("error",.object
  [("code",.number "-32001"),("message",.string message)])]

inductive Outcome where
 | result (value : Json)
 | refused (e : BridgeRpcError)
 | internal (message : String)

def Outcome.toResponse (outcome : Outcome) (id : Option Json) : Json :=
 match outcome with
 | .result value => okResult id value
 | .refused e => e.toResponse id
 | .internal message => internalError id message

structure RpcRequest where
 id : Option Json
 method : String
 params : Json

/-! ## The transport -/

structure BridgeTransportState where
 codec : Codec
 fallbackReason : Option String
 maxFrameBytes : Nat
 codecVersion : Nat

def BridgeTransportState.initial : BridgeTransportState :=
 ⟨.json,none,defaultBridgeMaxFrameBytes,1⟩

def BridgeTransportState.toWire (transport : BridgeTransportState) : Json :=
 let selectedMode :=
  if transport.codec = .msgpack then Codec.msgpack.wireName
  else if transport.fallbackReason.isSome then "json-fallback"
  else "json"
 .object ([("selectedCodec",.string transport.codec.wireName),
  ("selectedMode",.string selectedMode)] ++
  (transport.fallbackReason.map fun reason => ("fallbackReason",Json.string reason)).toList ++
  [("maxFrameBytes",.unsigned transport.maxFrameBytes),
   ("codecVersion",.unsigned transport.codecVersion)])

structure InitializeTransportParams where
 supportedCodecs : List String := []
 preferredCodec : Option String := none
 maxFrameBytes : Option Nat := none
 binaryBridge : Option Bool := none
 codecOverride : Option String := none

/-! The derived deserializers; `none` is a value of the wrong type. -/

namespace Deserialize

def string : Json → Option String := Json.asStr

def bool : Json → Option Bool
 | .bool value => some value
 | _ => none

def usize : Json → Option Nat := Json.asU64

def strings : Json → Option (List String)
 | .array items => items.mapM string
 | _ => none

def optional {α : Type} (parse : Json → Option α) : Json → Option (Option α)
 | .null => some none
 | value => (parse value).map some

def field {α : Type} (parse : Json → Option (Option α)) (value : Json) (key : String) :
 Option (Option α) :=
 match value.get key with
 | none => some none
 | some value => parse value

def binaryBridgeParams : Json → Option Bool
 | .object fields => do
  let enabled ← bool (← (Json.object fields).get "enabled")
  let _ ← field (optional usize) (.object fields) "minPayloadBytes"
  return enabled
 | .array [enabled,minPayloadBytes] => do
  let _ ← optional usize minPayloadBytes
  bool enabled
 | _ => none

def transportParams : Json → Option InitializeTransportParams
 | .object fields => do
  let value := Json.object fields
  return {
   supportedCodecs := (← field (fun v => (strings v).map some) value "supportedCodecs").getD []
   preferredCodec := ← field (optional string) value "preferredCodec"
   maxFrameBytes := ← field (optional usize) value "maxFrameBytes"
   binaryBridge := ← field (optional binaryBridgeParams) value "binaryBridge"
   codecOverride := ← field (optional string) value "codecOverride" }
 | .array [supported,preferred,limit,binary,override] => do
  return {
   supportedCodecs := ← strings supported
   preferredCodec := ← optional string preferred
   maxFrameBytes := ← optional usize limit
   binaryBridge := ← optional binaryBridgeParams binary
   codecOverride := ← optional string override }
 | _ => none

end Deserialize

inductive OverrideMode where
 | json | msgpack | auto
deriving DecidableEq

def normalizeCodecOverride (value : String) : OverrideMode :=
 let normal := lowercase (trimBy isRustSpace value.toList)
 if normal = "json".toList then .json
 else if normal = "msgpack".toList then .msgpack
 else .auto

/-! ## The router -/

inductive HookName where
 | preToolExec | preAnswer

inductive HookDecision where
 | allow | block | modify | passthrough
deriving DecidableEq

structure HookResult where
 decision : HookDecision
 output : Json
 reason : String

/-- What the server runs on: its surroundings, the hooks and the queries. The state is that of the
database. -/
structure Engine (σ : Type) where
 workspace : String
 serverVersion : String
 bridgeCodec : Option String
 invalidTransport : Json → String
 languageCapabilityMatrix : Json
 lifecycleContract : Json
 workerProtocolContract : Json
 dispatch : HookName → Json → σ → HookResult × σ
 /-- The branches of the handler for the methods of `queryMethods`. -/
 query : String → Json → σ → Outcome × σ

def workerProtocolVersion : String := "1"

def workerToHostQueryMethods : List String :=
 ["query.search","query.definition","query.relationship","query.buildEvidence",
  "query.callHierarchy","query.entryPoints"]

def queryMethods : List String :=
 workerToHostQueryMethods ++ ["query.traceFlow","query.impactAnalysis","query.semanticSearch"]

def bridgeInitializeMethods : List String := "dh.initialize" :: workerToHostQueryMethods

def bridgeLifecycleControlMethods : List String :=
 ["dh.initialized","dh.ready","session.runCommand","session.runLane","session.runDirect",
  "runtime.ping","dh.shutdown"]

def queryRelationships : List String := ["usage","dependencies","dependents"]

section
variable {σ : Type} (engine : Engine σ)

def initializeTransportParams (params : Json) :
 Except BridgeRpcError InitializeTransportParams :=
 match params.get "transport" with
 | none => .ok {}
 | some value =>
  match Deserialize.transportParams value with
  | some transportParams => .ok transportParams
  | none => .error (.codecNegotiationFailed
   ("invalid transport params: " ++ engine.invalidTransport value))

def selectCodec (transportParams : InitializeTransportParams) (maxFrameBytes : Nat) :
 Except BridgeRpcError BridgeTransportState :=
 let overrideMode := normalizeCodecOverride
  (transportParams.codecOverride.getD (engine.bridgeCodec.getD "auto"))
 if overrideMode = .json then .ok ⟨.json,some "forced_json",maxFrameBytes,1⟩
 else
  let binaryEnabled := transportParams.binaryBridge.getD true
  let supportsMsgpack := transportParams.supportedCodecs.contains Codec.msgpack.wireName
  let prefersMsgpack := transportParams.preferredCodec.all (· = Codec.msgpack.wireName)
  if binaryEnabled && supportsMsgpack && prefersMsgpack then
   .ok ⟨.msgpack,none,maxFrameBytes,1⟩
  else if overrideMode = .msgpack then
   .error (.codecNegotiationFailed
    "DH_BRIDGE_CODEC=msgpack requires both peers to support msgpack-rpc-v1")
  else
   let fallbackReason :=
    if !binaryEnabled then "binary_disabled"
    else if !supportsMsgpack then "peer_does_not_support_msgpack"
    else "peer_preferred_json"
   .ok ⟨.json,some fallbackReason,maxFrameBytes,1⟩

def negotiateTransport (params : Json) : Except BridgeRpcError BridgeTransportState :=
 match initializeTransportParams engine params with
 | .error e => .error e
 | .ok transportParams =>
  let maxFrameBytes := transportParams.maxFrameBytes.getD defaultBridgeMaxFrameBytes
  if !isValidBridgeMaxFrameBytes maxFrameBytes then
   .error (.codecNegotiationFailed ("maxFrameBytes must be between " ++
    toString minBridgeMaxFrameBytes ++ " and " ++ toString defaultBridgeMaxFrameBytes ++
    "; received " ++ toString maxFrameBytes))
  else selectCodec engine transportParams maxFrameBytes

def texts (items : List String) : Json := .array (items.map .string)

def initializeResult (transport : BridgeTransportState) : Json :=
 .object [("serverName",.string "dh-engine"),("serverVersion",.string engine.serverVersion),
  ("workspaceRoot",.string engine.workspace),
  ("protocolVersion",.string workerProtocolVersion),("transport",transport.toWire),
  ("capabilities",.object
   [("protocolVersion",.string workerProtocolVersion),
    ("methods",texts bridgeInitializeMethods),
    ("queryRelationship",.object [("supportedRelations",texts queryRelationships)]),
    ("languageCapabilityMatrix",engine.languageCapabilityMatrix),
    ("transport",transport.toWire),
    ("lifecycleControl",.object [("methods",texts bridgeLifecycleControlMethods),
     ("maxAutoRestarts",.unsigned 1)]),
    ("rustHostLifecycleContract",engine.lifecycleContract),
    ("workerProtocolContract",engine.workerProtocolContract)])]

section
variable (request : RpcRequest) (s : σ)

def handleQuery : Json × σ :=
 let (outcome,s) := engine.query request.method request.params s
 (outcome.toResponse request.id,s)

/-- The methods that pass are query methods, so that the handler runs their branch. -/
def routeWorkerQuery : Json × σ :=
 if request.method ∉ workerToHostQueryMethods then
  ((BridgeRpcError.capabilityUnsupported ("worker-to-host RPC method '" ++ request.method ++
   "' is outside the first-wave host query contract")).toResponse request.id,s)
 else handleQuery engine request s

def insertField (fields : List (String × Json)) (key : String) (value : Json) :
 List (String × Json) :=
 fields.filter (·.1≠key)++[(key,value)]

def commandResult (queryMethod : String) : Json → Json
 | .object fields => .object (insertField fields "method" (.string queryMethod))
 | other => .object [("method",.string queryMethod),("payload",other)]

def answerCommand (id : Option Json) (queryMethod : String) (delegated : Json) (s : σ) :
 Json × σ :=
 if (delegated.get "error").isSome then (delegated,s)
 else
  let delegatedResult := (delegated.get "result").getD (.object [])
  let (result,s) := engine.dispatch .preAnswer delegatedResult s
  if result.decision = .block then
   ((BridgeRpcError.executionFailed
    ("Hook blocked answer: " ++ result.reason)).toResponse id,s)
  else
   let finalResult := if result.decision = .modify then result.output else delegatedResult
   (okResult id (commandResult queryMethod finalResult),s)

def runCommand : Json × σ :=
 let query := (request.params.get "query").getD (.object [])
 let queryMethod := ((query.get "method").bind Json.asStr).getD ""
 let queryParams := (query.get "params").getD (.object [])
 if trimBy isRustSpace queryMethod.toList = [] then
  ((BridgeRpcError.invalidRequest
   "session.runCommand requires query.method and query.params").toResponse request.id,s)
 else if queryMethod ∉ workerToHostQueryMethods then
  ((BridgeRpcError.capabilityUnsupported
   ("session.runCommand does not support method: " ++ queryMethod)).toResponse request.id,s)
 else
  let (result,s) := engine.dispatch .preToolExec
   (.object [("tool_name",.string queryMethod),("tool_args",queryParams)]) s
  if result.decision = .block then
   ((BridgeRpcError.accessDenied
    ("Hook blocked execution: " ++ result.reason)).toResponse request.id,s)
  else
   let finalParams := if result.decision = .modify then result.output else queryParams
   let (delegated,s) := routeWorkerQuery engine
    { id := request.id,method := queryMethod,params := finalParams } s
   answerCommand engine request.id queryMethod delegated s

def handleRequest : Json × σ :=
 match request.method with
 | "dh.initialize" =>
  match negotiateTransport engine request.params with
  | .ok transport => (okResult request.id (initializeResult engine transport),s)
  | .error e => (e.toResponse request.id,s)
 | "dh.initialized" =>
  (okResult request.id (.object [("accepted",.bool true),("phase",.string "startup")]),s)
 | "dh.ready" =>
  (okResult request.id (.object [("ready",.bool true),("workerState",.string "ready"),
   ("healthState",.string "healthy"),("phase",.string "startup")]),s)
 | "runtime.ping" =>
  (okResult request.id (.object [("ok",.bool true),("workerState",.string "ready"),
   ("healthState",.string "healthy"),("phase",.string "health")]),s)
 | "dh.shutdown" =>
  (okResult request.id (.object [("accepted",.bool true),("phase",.string "shutdown")]),s)
 | "session.runCommand" => runCommand engine request s
 | method =>
  if method ∈ queryMethods then handleQuery engine request s
  else ((BridgeRpcError.capabilityUnsupported ("RPC method '" ++ method ++
   "' is outside the bounded bridge query contract")).toResponse request.id,s)

end

end

/-! ## The loop -/

/-- Every such error is made with `terminal` set. -/
structure BridgeProtocolError where
 rpcError : BridgeRpcError
 requestId : Option Json

def ReadError.toProtocolError (osError : ReadError → String) (maxFrameBytes : Nat)
 (e : ReadError) : BridgeProtocolError :=
 let rpcError : BridgeRpcError := match e with
  | .unreadableHeader => .invalidRequest ("failed to read bridge frame header: " ++ osError e)
  | .closed => .invalidRequest "bridge stdin closed"
  | .invalidContentLength => .invalidRequest "invalid Content-Length header"
  | .missingContentLength => .invalidRequest "missing Content-Length header"
  | .tooLarge length => .frameTooLarge ("bridge frame too large: " ++ toString length ++
   " bytes exceeds maxFrameBytes=" ++ toString maxFrameBytes)
  | .truncatedBody => .codecDecodeFailed
   ("bridge frame body truncated or unreadable: " ++ osError e)
  | .undecodable => .codecDecodeFailed (osError e)
 ⟨rpcError,none⟩

inductive Event where
 | received (request : RpcRequest)
 | wrote (response : Json) (frame : Bytes)

section
variable {σ : Type} (wire : Wire Json) (osError : ReadError → String) (engine : Engine σ)

def decodeRpcRequest (codec : Codec) (buf : Bytes) : Option RpcRequest := do
 let value ← wire.decodeRust codec buf
 let method ← (value.get "method").bind Json.asStr
 return { id := value.get "id",method,params := (value.get "params").getD (.object []) }

def extractRequestId (codec : Codec) (buf : Bytes) : Option Json :=
 (wire.decodeRust codec buf).bind (·.get "id")

def readRpcRequest (codec : Codec) (maxFrameBytes : Nat) (input : Bytes) :
 Except BridgeProtocolError (RpcRequest × Bytes) :=
 match readFrame maxFrameBytes input with
 | .error e => .error (e.toProtocolError osError maxFrameBytes)
 | .ok (body,rest) =>
  match decodeRpcRequest wire codec body with
  | some request => .ok (request,rest)
  | none => .error ⟨.codecDecodeFailed ("decode " ++ codec.wireName ++ " request payload: " ++
   osError .undecodable),extractRequestId wire codec body⟩

def respond (transport : BridgeTransportState) (request : RpcRequest) (s : σ) :
 Json × BridgeTransportState × σ :=
 if request.method = "dh.initialize" then
  match negotiateTransport engine request.params with
  | .ok nextTransport =>
   (okResult request.id (initializeResult engine nextTransport),nextTransport,s)
  | .error e => (e.toResponse request.id,transport,s)
 else
  let (response,s) := handleRequest engine request s
  (response,transport,s)

/-- The loop of `run_bridge_server` on the bytes of its input; each turn takes a frame off them.
A response that cannot be written ends it with an error. -/
def serve : Nat → BridgeTransportState → σ → Bytes → List Event × Except String Unit
 | 0,_,_,_ => ([],.ok ())
 | n+1,transport,s,input =>
  match readRpcRequest wire osError transport.codec transport.maxFrameBytes input with
  | .error e =>
   match e.requestId with
   | none => ([],.ok ())
   | some id =>
    let response := e.rpcError.toResponse (some id)
    match writeRpcResponse wire transport.codec response transport.maxFrameBytes with
    | .error text => ([],.error text)
    | .ok frame => ([.wrote response frame],.ok ())
  | .ok (request,rest) =>
   let (response,transport,s) := respond engine transport request s
   match writeRpcResponse wire transport.codec response transport.maxFrameBytes with
   | .error text => ([.received request],.error text)
   | .ok frame =>
    if request.method = "dh.shutdown" then ([.received request,.wrote response frame],.ok ())
    else
     let (later,outcome) := serve n transport s rest
     (.received request :: .wrote response frame::later,outcome)

def runBridgeServer (s : σ) (input : Bytes) : List Event × Except String Unit :=
 serve wire osError engine (input.length+1) .initial s input

end

end DhKit.Bridge
