import Mathlib.Data.List.Basic

/-!
# JSON-RPC messages

The values that the host, the worker and the bridge exchange.
-/
namespace DhKit.JsonRpc

inductive Json where
 | null
 | bool (value : Bool)
 /-- An integer that fits an unsigned word. -/
 | unsigned (value : Nat)
 /-- Any other number. -/
 | number (text : String)
 | string (text : String)
 | array (items : List Json)
 | object (fields : List (String × Json))

namespace Json

def get (value : Json) (key : String) : Option Json :=
 match value with
 | object fields => (fields.find? (·.1 = key)).map Prod.snd
 | _ => none

def asU64 : Json → Option Nat
 | unsigned value => some value
 | _ => none

def asStr : Json → Option String
 | string text => some text
 | _ => none

def isNull : Json → Bool
 | null => true
 | _ => false

end Json

def jsonrpcRequest (id : Nat) (method : String) (params : Json) : Json :=
 .object [("jsonrpc",.string "2.0"),("id",.unsigned id),("method",.string method),
  ("params",params)]

def jsonrpcNotification (method : String) (params : Json) : Json :=
 .object [("jsonrpc",.string "2.0"),("method",.string method),("params",params)]

def messageId (message : Json) : Option Nat := (message.get "id").bind Json.asU64

def messageMethod (message : Json) : Option String := (message.get "method").bind Json.asStr

def messageResult (message : Json) : Option Json := message.get "result"

def messageError (message : Json) : Option Json := message.get "error"

theorem get_id_of_messageId {message : Json} {id : Nat} (h:messageId message=some id) :
 message.get "id" = some (.unsigned id) := by
 obtain ⟨value,hge,hvalue⟩:=Option.bind_eq_some_iff.mp h
 cases value with
 | unsigned n =>
  cases hvalue
  exact hge
 | _ => cases hvalue

end DhKit.JsonRpc
