import DhKit.BridgeServer

/-!
# The bridge client

`DhJsonRpcStdioClient` starts the engine on its first call and waits for the answer to
`dh.initialize`.
-/
namespace DhKit.Bridge
open JsonRpc StreamFrames

/-! ## Failures -/

inductive BridgeFailureCode where
 | bridgeStartupFailed | bridgeUnreachable | bridgeTimeout | methodNotSupported
 | invalidRequest | accessDenied | notFound | timeout | executionFailed | runtimeUnavailable
 | binaryFileUnsupported | bridgeCodecUnsupported | bridgeCodecDecodeFailed
 | bridgeFrameTooLarge | bridgeCodecNegotiationFailed | capabilityUnsupported | requestFailed
deriving DecidableEq

inductive BridgeFailurePhase where
 | startup | request
deriving DecidableEq

structure DhBridgeError where
 code : BridgeFailureCode
 phase : BridgeFailurePhase
 message : String
 retryable : Bool := false

def symbolicCodes : List (String × BridgeFailureCode) :=
 [("CAPABILITY_UNSUPPORTED",.capabilityUnsupported),("ACCESS_DENIED",.accessDenied),
  ("NOT_FOUND",.notFound),("TIMEOUT",.timeout),("EXECUTION_FAILED",.executionFailed),
  ("RUNTIME_UNAVAILABLE",.runtimeUnavailable),
  ("BINARY_FILE_UNSUPPORTED",.binaryFileUnsupported),
  ("BRIDGE_CODEC_UNSUPPORTED",.bridgeCodecUnsupported),
  ("BRIDGE_CODEC_DECODE_FAILED",.bridgeCodecDecodeFailed),
  ("BRIDGE_FRAME_TOO_LARGE",.bridgeFrameTooLarge),
  ("BRIDGE_CODEC_NEGOTIATION_FAILED",.bridgeCodecNegotiationFailed)]

def mapRpcError (error : Json) (phase : BridgeFailurePhase) : DhBridgeError :=
 let message := ((error.get "message").bind Json.asStr).getD ""
 let symbolicCode := ((error.get "data").bind (·.get "code")).bind Json.asStr
 match symbolicCode.bind fun text => (symbolicCodes.find? (·.1 = text)).map Prod.snd with
 | some code => { code,phase,message,retryable := code = .timeout }
 | none =>
  match error.get "code" with
  | some (.number "-32601") => { code := .methodNotSupported,phase,message }
  | some (.number "-32600") => { code := .invalidRequest,phase,message }
  | some (.number "-32602") => { code := .invalidRequest,phase,message }
  | _ => { code := .requestFailed,phase,message }

/-! ## Numbers and overrides -/

inductive JsNumber where
 | whole (value : Nat)
 | other (text : String)
deriving DecidableEq

def JsNumber.text : JsNumber → String
 | .whole value => toString value
 | .other text => text

def asNumber : Json → Option JsNumber
 | .unsigned value => some (.whole value)
 | .number text => some (.other text)
 | _ => none

def asBridgeRpcCodec (value : Json) : Option Codec :=
 match value.asStr with
 | some "json-rpc-v1" => some .json
 | some "msgpack-rpc-v1" => some .msgpack
 | _ => none

def isJsSpace (c : Char) : Bool :=
 (isRustSpace c && c.toNat != 0x85) || c.toNat = 0xFEFF

/-- `toLowerCase`, as far as it makes ASCII letters: the Kelvin sign is one more `K`. -/
def jsLower (c : Char) : Char := if c.toNat = 0x212A then 'k' else c.toLower

def normalizeBridgeCodecModeOverride (value : Option String) : OverrideMode :=
 match value with
 | none => .auto
 | some value =>
  let normalized := (trimBy isJsSpace value.toList).map jsLower
  if normalized = "json".toList then .json
  else if normalized = "msgpack".toList then .msgpack
  else .auto

def OverrideMode.text : OverrideMode → String
 | .json => "json"
 | .msgpack => "msgpack"
 | .auto => "auto"

/-! ## What the engine has to advertise -/

def v2ProtocolVersion : String := "1"

def v2Methods : List String :=
 ["dh.initialize","query.search","query.definition","query.relationship",
  "query.buildEvidence","query.callHierarchy","query.entryPoints","runtime.ping"]

def v2Relations : List String := ["usage","dependencies","dependents"]

def asStringArray : Json → Option (List String)
 | .array items => items.mapM Json.asStr
 | _ => none

def advertises (value : Option Json) (required : List String) : Bool :=
 match value.bind asStringArray with
 | none => false
 | some items => items.length = required.length && required.all fun text => items.contains text

def languageCapabilityStates : List String :=
 ["supported","partial","best-effort","unsupported","best_effort"]

/-- Whether `parseBridgeLanguageCapabilityEntry` finds an entry; an empty text is none. -/
def isLanguageCapabilityEntry (value : Json) : Bool :=
 let text (key : String) : Option String := (value.get key).bind Json.asStr
 ["language","capability","reason"].all (fun key => (text key).any (· ≠ "")) &&
  (text "state").any (fun state => languageCapabilityStates.contains state) &&
  match value.get "parserBacked" with
  | some (.bool _) => true
  | _ => false

structure BridgeTransportSnapshot where
 selectedCodec : Codec
 fallbackReason : Option String
 maxFrameBytes : JsNumber
 codecVersion : JsNumber

/-- What a client finds around it: its codecs, its environment, and some texts. -/
structure ClientEnv where
 wire : Wire Json
 bridgeCodec : Option String
 /-- Whether a number that is no integer lies between the bounds on frames. -/
 inFrameRange : String → Bool
 decodeError : Bytes → String

section
variable (env : ClientEnv)

def parseBridgeTransportSnapshot (value : Json) : Option BridgeTransportSnapshot := do
 let selectedCodec ← (value.get "selectedCodec").bind asBridgeRpcCodec
 let rawMaxFrameBytes := ((value.get "maxFrameBytes").bind asNumber).getD
  (.whole defaultBridgeMaxFrameBytes)
 let inRange := match rawMaxFrameBytes with
  | .whole n => isValidBridgeMaxFrameBytes n
  | .other text => env.inFrameRange text
 return {
  selectedCodec
  fallbackReason := (value.get "fallbackReason").bind Json.asStr
  maxFrameBytes := if inRange then rawMaxFrameBytes else .whole defaultBridgeMaxFrameBytes
  codecVersion := ((value.get "codecVersion").bind asNumber).getD (.whole 1) }

/-- The transport among the capabilities, if they are as required. -/
def parseV2Capabilities (value : Option Json) : Option (Option BridgeTransportSnapshot) :=
 let field (key : String) : Option Json := value.bind (·.get key)
 if (field "protocolVersion").bind Json.asStr ≠ some v2ProtocolVersion then none
 else if !advertises (field "methods") v2Methods then none
 else if !advertises ((field "queryRelationship").bind (·.get "supportedRelations")) v2Relations
 then none
 else match field "languageCapabilityMatrix" with
  | some (.array (entry::entries)) =>
   if (entry::entries).all isLanguageCapabilityEntry then
    some ((field "transport").bind (parseBridgeTransportSnapshot env))
   else none
  | _ => none

end

/-! ## The client -/

structure ChildProcess where
 running : Bool
 killed : Bool := false
deriving DecidableEq

/-- How a promise of `request` is settled. -/
inductive Settlement where
 | resolved (response : Json)
 | rejected (e : DhBridgeError)

inductive PublicCall where
 | getInitializeSnapshot
 | getRuntimePing
 /-- The method and the parameters of the query, if its class is among those that are delegated. -/
 | runAskQuery (query : Option (String × Json))
 | runSessionCommand (method : String) (params : Json)

/-- Where a public call waits. -/
inductive CallState where
 /-- For the answer to its `dh.initialize`. -/
 | initializing (id : Nat)
 /-- To go on behind `await this.ensureInitialized(..)`. -/
 | proceeding
 | requesting (id : Nat)
 | finished

structure RequestTimer where
 method : String
 phase : BridgeFailurePhase
 timeoutMs : Nat

structure Client where
 startupTimeoutMs : Nat := 10000
 requestTimeoutMs : Nat := 10000
 closed : Bool := false
 initialized : Bool := false
 /-- The number of the child in use, among all that were started. -/
 child : Option Nat := none
 children : List ChildProcess := []
 nextRequestId : Nat := 1
 readBuffer : Bytes := []
 activeCodec : Codec := .json
 maxFrameBytes : Nat := defaultBridgeMaxFrameBytes
 pending : List (Nat × BridgeFailurePhase) := []
 timers : List (Nat × RequestTimer) := []
 calls : List (PublicCall × CallState) := []
 /-- The requests made, the calls of `resolve` and `reject` and the frames written to each child, so
 far. -/
 issued : List Nat := []
 settled : List (Nat × Settlement) := []
 sent : List (Nat × Bytes) := []

namespace Client
variable (c : Client)

/-- `clearTimeout`, `pending.delete` and the call of `resolve` or `reject`. -/
def settle (id : Nat) (settlement : Settlement) : Client :=
 { c with
   pending := c.pending.filter (·.1≠id)
   timers := c.timers.filter (·.1≠id)
   settled := c.settled++[(id,settlement)] }

def failAllPending (createError : Nat → BridgeFailurePhase → DhBridgeError) : Client :=
 c.pending.foldl (fun c entry => c.settle entry.1 (.rejected (createError entry.1 entry.2))) c

def unreachable (phase : BridgeFailurePhase) (message : String) : Settlement :=
 .rejected { code := .bridgeUnreachable,phase,message }

def requestMessage (id : Nat) (method : String) (params : Option Json) : Json :=
 .object ([("jsonrpc",.string "2.0"),("id",.unsigned id),("method",.string method)] ++
  (params.map fun params => ("params",params)).toList)

def request (wire : Wire Json) (id : Nat) (method : String) (params : Option Json)
 (phase : BridgeFailurePhase) (timeoutMs : Nat) : Client :=
 let c := { c with issued := c.issued++[id] }
 if c.closed then
  { c with settled := c.settled ++ [(id,unreachable phase "Bridge client is already closed.")] }
 else match c.child with
  | none => { c with
   settled := c.settled ++ [(id,unreachable phase "Bridge process is not available.")] }
  | some child =>
   let timer : RequestTimer := { method,phase,timeoutMs }
   let c := { c with
    timers := c.timers++[(id,timer)]
    pending := c.pending++[(id,phase)] }
   match encodeRpcFrame wire c.activeCodec (requestMessage id method params) c.maxFrameBytes with
   | .error text => c.settle id (.rejected
    { code := .bridgeFrameTooLarge,phase,
      message := "Failed to encode bridge request '" ++ method ++ "': " ++ text })
   | .ok frame => { c with sent := c.sent++[(child,frame)] }

variable (env : ClientEnv)

def nextRequest (method : String) (params : Option Json)
 (phase : BridgeFailurePhase) (timeoutMs : Nat) : Client :=
 { c with nextRequestId := c.nextRequestId+1 }.request env.wire c.nextRequestId method params
   phase timeoutMs

/-! ### Answers -/

def frameError (maxFrameBytes : Nat) (fault : FrameFault) (phase : BridgeFailurePhase) :
 DhBridgeError :=
 match fault with
 | .malformedContentLength =>
  ⟨.invalidRequest,phase,"Bridge response has a malformed Content-Length header.",false⟩
 | .missingContentLength =>
  ⟨.invalidRequest,phase,"Bridge response is missing a valid Content-Length header.",false⟩
 | .tooLarge contentLength =>
  ⟨.bridgeFrameTooLarge,phase,"Bridge response frame is " ++ toString contentLength ++
   " bytes, exceeding maxFrameBytes=" ++ toString maxFrameBytes ++ ".",false⟩

def decodeFailure (codec : Codec) (text : String) (phase : BridgeFailurePhase) : DhBridgeError :=
 ⟨if codec = .msgpack then .bridgeCodecDecodeFailed else .invalidRequest,phase,
  "Bridge response payload could not be decoded as " ++ codec.wireName ++ ": " ++ text,false⟩

def decodeRpcBody (wire : Wire Json) (codec : Codec) (body : Bytes) (maxFrameBytes : Nat) :
 Option Json :=
 if !isValidBridgeMaxFrameBytes maxFrameBytes then none else wire.decodeTs codec body

/-- A decoded message, and whether the loop goes on: to read the id of `null` is a `TypeError`. -/
def deliver (parsed : Json) : Client × Bool :=
 if parsed.isNull then (c,false)
 else match messageId parsed with
  | none => (c,true)
  | some id =>
   if c.pending.any (·.1 = id) then (c.settle id (.resolved parsed),true) else (c,true)

def receive (body : Bytes) : Client × Bool :=
 match decodeRpcBody env.wire c.activeCodec body c.maxFrameBytes with
 | none => (c.failAllPending fun _ => decodeFailure c.activeCodec (env.decodeError body),false)
 | some parsed => c.deliver parsed

def frameReader (maxFrameBytes : Nat) :
 Reader FrameFault Bytes UInt8 Client where
 next := nextFrame maxFrameBytes
 refuse := fun c fault => c.failAllPending fun _ => frameError maxFrameBytes fault
 handle := fun c body => c.receive env body

def onData (chunk : Bytes) : Client :=
 let (readBuffer,c) := (frameReader env c.maxFrameBytes).feed (c.readBuffer,c) chunk
 { c with readBuffer }

/-! ### Initialization -/

inductive SpawnOutcome where
 | started
 /-- The child has no process; an `error` event follows. -/
 | unstarted
 | threw
deriving DecidableEq

def initializeTransportParams : Json :=
 let override := normalizeBridgeCodecModeOverride env.bridgeCodec
 let supportedCodecs := if override = .json then [Codec.json] else [Codec.json,Codec.msgpack]
 let preferredCodec := if override = .json then Codec.json else Codec.msgpack
 .object [("supportedCodecs",texts (supportedCodecs.map Codec.wireName)),
  ("preferredCodec",.string preferredCodec.wireName),
  ("maxFrameBytes",.unsigned c.maxFrameBytes),
  ("binaryBridge",.object [("enabled",.bool (override ≠ .json)),
   ("minPayloadBytes",.unsigned 0)]),
  ("codecOverride",.string override.text)]

def initializeParams (repoRoot : String) : Json :=
 .object [("protocolVersion",.string "1"),("workspaceRoot",.string repoRoot),
  ("client",.object [("name",.string "dh-cli"),("version",.string "0.1.0")]),
  ("transport",c.initializeTransportParams env)]

def withChild (spawn : SpawnOutcome) : Client :=
 { c with
   child := some c.children.length
   children := c.children++[{ running := spawn = .started,killed := false }] }

/-- `ensureInitialized` until it waits. -/
def ensureInitialized (repoRoot : String) (spawn : SpawnOutcome) :
 Client × CallState :=
 if c.initialized then (c,.proceeding)
 else if spawn = .threw then (c,.finished)
 else
  ((c.withChild spawn).nextRequest env "dh.initialize" (some (c.initializeParams env repoRoot))
   .startup c.startupTimeoutMs,.initializing c.nextRequestId)

def startupError (code : BridgeFailureCode) (message : String) : DhBridgeError :=
 { code,phase := .startup,message }

def invalidMaxFrameBytes (received : String) : DhBridgeError :=
 startupError .bridgeCodecNegotiationFailed ("Bridge selected invalid maxFrameBytes: " ++
  "maxFrameBytes must be an integer between " ++ toString minBridgeMaxFrameBytes ++ " and " ++
  toString defaultBridgeMaxFrameBytes ++ "; received " ++ received ++ ".")

def applyNegotiatedTransport (resultTransport : Option Json)
 (capabilitiesTransport : Option BridgeTransportSnapshot) : Except DhBridgeError Client :=
 let field (key : String) : Option Json := resultTransport.bind (·.get key)
 let selectedCodec := (((field "selectedCodec").bind asBridgeRpcCodec).or
  (capabilitiesTransport.map (·.selectedCodec))).getD .json
 let maxFrameBytes := (((field "maxFrameBytes").bind asNumber).or
  (capabilitiesTransport.map (·.maxFrameBytes))).getD (.whole defaultBridgeMaxFrameBytes)
 let codecVersion := (((field "codecVersion").bind asNumber).or
  (capabilitiesTransport.map (·.codecVersion))).getD (.whole 1)
 let override := normalizeBridgeCodecModeOverride env.bridgeCodec
 match maxFrameBytes with
 | .other text => .error (invalidMaxFrameBytes text)
 | .whole maxFrameBytes =>
  if !isValidBridgeMaxFrameBytes maxFrameBytes then
   .error (invalidMaxFrameBytes (toString maxFrameBytes))
  else if override = .msgpack ∧ selectedCodec≠.msgpack then
   .error (startupError .bridgeCodecNegotiationFailed ("DH_BRIDGE_CODEC=msgpack required " ++
    Codec.msgpack.wireName ++ ", but bridge selected " ++ selectedCodec.wireName ++ "."))
  else if selectedCodec = .msgpack ∧ codecVersion≠.whole 1 then
   .error (startupError .bridgeCodecUnsupported
    ("Bridge selected unsupported MessagePack codecVersion '" ++ codecVersion.text ++ "'."))
  else .ok { c with activeCodec := selectedCodec,maxFrameBytes }

/-- `ensureInitialized` behind the answer. -/
def completeInitialize (response : Json) : Except DhBridgeError Client :=
 match response.get "error" with
 | some error => .error (mapRpcError error .startup)
 | none =>
  let field (key : String) : Option Json := (response.get "result").bind (·.get key)
  if (field "protocolVersion").bind Json.asStr ≠ some v2ProtocolVersion then
   .error (startupError .invalidRequest ("Bridge initialize returned unsupported " ++
    "protocolVersion '" ++ ((field "protocolVersion").bind Json.asStr).getD "missing" ++ "'."))
  else match parseV2Capabilities env (field "capabilities") with
   | none => .error (startupError .invalidRequest
    "Bridge initialize did not advertise required V2 capabilities.")
   | some transport =>
    (c.applyNegotiatedTransport env (field "transport") transport).map
     fun c => { c with initialized := true }

/-! ### Calls and events -/

/-- A public call until it waits: all of them begin with `ensureInitialized`. -/
def beginCall (call : PublicCall) (repoRoot : String) (spawn : SpawnOutcome) :
 Client :=
 let (c,state) := c.ensureInitialized env repoRoot spawn
 { c with calls := c.calls++[(call,state)] }

def callRequest (method : String) (params : Option Json) : Client × CallState :=
 (c.nextRequest env method params .request c.requestTimeoutMs,.requesting c.nextRequestId)

/-- A call behind `await this.ensureInitialized(..)`. -/
def proceed (call : PublicCall) : Client × CallState :=
 match call with
 | .getInitializeSnapshot => (c,.finished)
 | .getRuntimePing => c.callRequest env "runtime.ping" none
 | .runAskQuery none => (c,.finished)
 | .runAskQuery (some (method,params)) => c.callRequest env method (some params)
 | .runSessionCommand method params =>
  c.callRequest env "session.runCommand" (some (.object
   [("query",.object [("method",.string method),("params",params)])]))

/-- A call goes on when what it waits for has come; otherwise it stays where it is. -/
def resumeCall (call : PublicCall) (state : CallState) : Client × CallState :=
 match state with
 | .initializing id =>
  match (c.settled.find? (·.1 = id)).map Prod.snd with
  | none => (c,state)
  | some (.rejected _) => (c,.finished)
  | some (.resolved response) =>
   match c.completeInitialize env response with
   | .error _ => (c,.finished)
   | .ok c => (c,.proceeding)
 | .proceeding => c.proceed env call
 | .requesting id => if c.settled.any (·.1 = id) then (c,.finished) else (c,state)
 | .finished => (c,state)

def resume (n : Nat) : Client :=
 match c.calls[n]? with
 | none => c
 | some (call,state) =>
  let (c,state) := c.resumeCall env call state
  { c with calls := c.calls.set n (call,state) }

def timeoutError (timer : RequestTimer) : DhBridgeError :=
 ⟨.bridgeTimeout,timer.phase,"Bridge request timed out after " ++ toString timer.timeoutMs ++
  "ms for method '" ++ timer.method ++ "'.",true⟩

def onTimer (id : Nat) : Client :=
 match c.timers.find? (·.1 = id) with
 | none => c
 | some (_,timer) => c.settle id (.rejected (timeoutError timer))

def onWriteError (id : Nat) (text : String) : Client :=
 match c.pending.find? (·.1 = id) with
 | none => c
 | some (_,phase) =>
  c.settle id (unreachable phase ("Failed to send bridge request: " ++ text))

def processError (text : String) (phase : BridgeFailurePhase) : DhBridgeError :=
 ⟨if phase = .startup then .bridgeStartupFailed else .bridgeUnreachable,phase,text,false⟩

def onChildError (text : String) : Client :=
 c.failAllPending fun _ =>
  processError ("Failed to start rust bridge process: " ++ text)

def setChild (n : Nat) (update : ChildProcess → ChildProcess) : Client :=
 { c with children := c.children.modify n update }

def onChildExit (n : Nat) (text : String) : Client :=
 let c := c.setChild n fun child => { child with running := false }
 if c.closed then c
 else c.failAllPending fun _ =>
  processError ("Rust bridge process exited unexpectedly " ++ text)

def closeError (id : Nat) (phase : BridgeFailurePhase) : DhBridgeError :=
 ⟨.bridgeUnreachable,phase,
  "Bridge connection closed while request " ++ toString id ++ " was pending.",false⟩

def close : Client :=
 if c.closed then c
 else
  let child := c.child
  let c := { c with closed := true,child := none }
  let c := c.failAllPending closeError
  match child with
  | none => c
  | some n => c.setChild n fun child => { child with killed := true }

end Client

inductive ClientEvent where
 | call (call : PublicCall) (repoRoot : String) (spawn : Client.SpawnOutcome)
 | resume (n : Nat)
 | data (chunk : Bytes)
 | timer (id : Nat)
 | writeError (id : Nat) (text : String)
 | childError (n : Nat) (text : String)
 | childExit (n : Nat) (text : String)
 | close

/-- An event that cannot happen, a timer that does not run or a call that still waits, changes
nothing. -/
def Client.step (env : ClientEnv) (c : Client) : ClientEvent → Client
 | .call call repoRoot spawn => c.beginCall env call repoRoot spawn
 | .resume n => c.resume env n
 | .data chunk => c.onData env chunk
 | .timer id => c.onTimer id
 | .writeError id text => c.onWriteError id text
 | .childError _ text => c.onChildError text
 | .childExit n text => c.onChildExit n text
 | .close => c.close

def Client.run (env : ClientEnv) (c : Client) (events : List ClientEvent) : Client :=
 events.foldl (Client.step env) c

end DhKit.Bridge
