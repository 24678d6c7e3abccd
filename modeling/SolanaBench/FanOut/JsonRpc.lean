import Mathlib.Algebra.Ring.Int.Defs
import SolanaBench.EntrySources.Observation
import SolanaBench.Lib.Json

/-! The JSON-RPC reply of the fan-out bench and the parser that its senders share. -/
namespace SolanaBench.FanOut.JsonRpc

open Json

inductive RateLimitState
  | ok | throttled429 | circuitOpen | timeout
  deriving DecidableEq, Repr

structure SendOutcome where
  sendAt : Instant
  sendAckAt : Option Instant
  signature : Signature
  providerRequestId : Option String
  httpStatus : Option ℕ
  rpcErrCode : Option ℤ
  rpcErrMessage : Option String
  rateLimitState : RateLimitState
  error : Option String
  deriving DecidableEq, Repr

structure JsonRpcError where
  code : ℤ
  message : String
  data : Option Json

structure JsonRpcResponse where
  jsonrpc : String
  id : Json
  result : Option String
  error : Option JsonRpcError

def i32? : Json → Option ℤ := intIn? (-2 ^ 31) (2 ^ 31 - 1)

/-- The derived reader; `data` is `#[serde(default)]`, and a record may come as an array. -/
def JsonRpcError.read : Json → Option JsonRpcError
  | .obj m => do
    let code ← required i32? "code" m
    let message ← required str? "message" m
    let data ← optional value? "data" m
    pure { code, message, data }
  | .arr (code :: message :: rest) => do
    let code ← i32? code
    let message ← str? message
    let data ← trailing value? rest[0]?
    if rest.length ≤ 1 then pure { code, message, data } else none
  | _ => none

def JsonRpcResponse.read : Json → Option JsonRpcResponse
  | .obj m => do
    let jsonrpc ← required str? "jsonrpc" m
    let id ← required value? "id" m
    let result ← optional str? "result" m
    let error ← optional JsonRpcError.read "error" m
    pure { jsonrpc, id, result, error }
  | .arr (jsonrpc :: id :: rest) => do
    let jsonrpc ← str? jsonrpc
    let id ← value? id
    let result ← trailing str? rest[0]?
    let error ← trailing JsonRpcError.read rest[1]?
    if rest.length ≤ 2 then pure { jsonrpc, id, result, error } else none
  | _ => none

/-- How a POST ends. The body is `none` where reading it fails. -/
inductive PostResult
  | response (status : ℕ) (text : Option String)
  | failed (e : String) (isTimeout : Bool)

-- the text of a body as a JSON value, and the parser of base58 signatures
variable (parse : String → Option Json) (parseSignature : String → Option Signature)

def parseJsonrpcOrText (respResult : PostResult) (sendAt : Instant) (sendAckAt : Option Instant)
    (signature : Signature) : SendOutcome :=
  match respResult with
  | .failed e isTimeout =>
    { sendAt, sendAckAt := none, signature
      providerRequestId := none
      httpStatus := none
      rpcErrCode := none
      rpcErrMessage := none
      rateLimitState := if isTimeout then .timeout else .ok
      error := some ("network: " ++ e) }
  | .response status text =>
    let bodyText := text.getD ""
    match (parse bodyText).bind JsonRpcResponse.read with
    | some parsed =>
      match parsed.error with
      | some err =>
        { sendAt, sendAckAt, signature
          providerRequestId := none
          httpStatus := some status
          rpcErrCode := some err.code
          rpcErrMessage := some err.message
          rateLimitState := if err.code = -32005 ∨ status = 429 then .throttled429 else .ok
          error := some err.message }
      | none =>
        { sendAt, sendAckAt
          signature := (parsed.result.bind parseSignature).getD signature
          providerRequestId := none
          httpStatus := some status
          rpcErrCode := none
          rpcErrMessage := none
          rateLimitState := .ok
          error := none }
    | none =>
      { sendAt, sendAckAt, signature
        providerRequestId := none
        httpStatus := some status
        rpcErrCode := none
        rpcErrMessage := some ("non-JSONRPC response: " ++ bodyText)
        rateLimitState := if status = 429 then .throttled429 else .ok
        error := some ("HTTP " ++ toString status ++ " body: " ++ bodyText) }

/-! ## What is read -/

section Reading

variable {m : List (String × Json)} {r : JsonRpcResponse} {e : JsonRpcError}

/-- An object is read as a reply exactly if each field is there as it must be. -/
theorem read_obj_eq_some_iff : JsonRpcResponse.read (.obj m) = some r ↔
    required str? "jsonrpc" m = some r.jsonrpc ∧ required value? "id" m = some r.id ∧
      optional str? "result" m = some r.result ∧
        optional JsonRpcError.read "error" m = some r.error := by
  simp only [JsonRpcResponse.read, Option.bind_eq_bind, Option.bind_eq_some_iff, Option.pure_def,
    Option.some.injEq]
  constructor
  · rintro ⟨jsonrpc, hj, id, hi, result, hr, error, he, rfl⟩
    exact ⟨hj, hi, hr, he⟩
  · rintro ⟨hj, hi, hr, he⟩
    exact ⟨_, hj, _, hi, _, hr, _, he, rfl⟩

theorem error_read_obj_eq_some_iff : JsonRpcError.read (.obj m) = some e ↔
    required i32? "code" m = some e.code ∧ required str? "message" m = some e.message ∧
      optional value? "data" m = some e.data := by
  simp only [JsonRpcError.read, Option.bind_eq_bind, Option.bind_eq_some_iff, Option.pure_def,
    Option.some.injEq]
  constructor
  · rintro ⟨code, hc, message, hm, data, hd, rfl⟩
    exact ⟨hc, hm, hd⟩
  · rintro ⟨hc, hm, hd⟩
    exact ⟨_, hc, _, hm, _, hd, rfl⟩

end Reading

end SolanaBench.FanOut.JsonRpc
