import SolanaBench.FanOut.JsonRpc
import SolanaBench.TickTrigger.Triton

/-! What the senders make of one JSON-RPC reply: the record that the Jito, Triton and Helius
senders read, the Helius sender itself, and how the verdicts of the three and of the parser of
the fan-out bench compare on every body. -/
namespace SolanaBench.TickTrigger.Replies

open Json Recorder
open Jito (JsonRpcError JsonRpcResponse Transaction PostResult FanoutReply)

/-! ## The record -/

def i32? : Json → Option ℤ := intIn? (-2 ^ 31) (2 ^ 31 - 1)

/-- The derived reader of the three senders' error; a record may come as an array. -/
def readError : Json → Option JsonRpcError
  | .obj m => do
    let code ← required i32? "code" m
    let message ← required str? "message" m
    pure { code, message }
  | .arr [code, message] => do
    let code ← i32? code
    let message ← str? message
    pure { code, message }
  | _ => none

/-- The derived reader of their reply, which knows no `jsonrpc` and no `id`. -/
def readResponse : Json → Option JsonRpcResponse
  | .obj m => do
    let result ← optional str? "result" m
    let error ← optional readError "error" m
    pure { result, error }
  | .arr [result, error] => do
    let result ← option? str? result
    let error ← option? readError error
    pure { result, error }
  | _ => none

theorem readResponse_obj_eq_some_iff {m : List (String × Json)} {r : JsonRpcResponse} :
    readResponse (.obj m) = some r ↔
      optional str? "result" m = some r.result ∧ optional readError "error" m = some r.error := by
  simp only [readResponse, Option.bind_eq_bind, Option.bind_eq_some_iff, Option.pure_def,
    Option.some.injEq]
  constructor
  · rintro ⟨result, hr, error, he, rfl⟩
    exact ⟨hr, he⟩
  · rintro ⟨hr, he⟩
    exact ⟨_, hr, _, he, rfl⟩

theorem readError_obj_eq_some_iff {m : List (String × Json)} {e : JsonRpcError} :
    readError (.obj m) = some e ↔
      required i32? "code" m = some e.code ∧ required str? "message" m = some e.message := by
  simp only [readError, Option.bind_eq_bind, Option.bind_eq_some_iff, Option.pure_def,
    Option.some.injEq]
  constructor
  · rintro ⟨code, hc, message, hm, rfl⟩
    exact ⟨hc, hm⟩
  · rintro ⟨hc, hm⟩
    exact ⟨_, hc, _, hm, rfl⟩

/-! ## The Helius sender -/

structure HeliusSender where
  id : ℕ
  name : String
  endpoint : String
  deriving DecidableEq, Repr

section

-- `serde_json::from_str::<JsonRpcResponse>` and the parser of base58 signatures
variable (fromStr : String → Option JsonRpcResponse) (parseSignature : String → Option Signature)

/-- `send`, between the two clock readings. -/
def HeliusSender.send (self : HeliusSender) (tx : Transaction) (sendAt sendAckAt : Instant)
    (result : PostResult) : SendOutcome :=
  let signature := tx.signatures.head?.getD 0
  match result with
  | .network e =>
    { sendAt, sendAckAt := none, signature
      httpStatus := none
      rpcErrCode := none
      rpcErrMessage := none
      providerRequestId := none
      error := some ("network: " ++ e)
      endpointUrlUsed := some self.endpoint }
  | .response status text =>
    let bodyText := text.getD ""
    match fromStr bodyText with
    | some parsed =>
      match parsed.error with
      | some err =>
        { sendAt, sendAckAt := some sendAckAt, signature
          httpStatus := some status
          rpcErrCode := some err.code
          rpcErrMessage := some err.message
          providerRequestId := none
          error := some err.message
          endpointUrlUsed := some self.endpoint }
      | none =>
        { sendAt, sendAckAt := some sendAckAt
          signature := (parsed.result.bind parseSignature).getD signature
          httpStatus := some status
          rpcErrCode := none
          rpcErrMessage := none
          providerRequestId := none
          error := none
          endpointUrlUsed := some self.endpoint }
    | none =>
      { sendAt, sendAckAt := some sendAckAt, signature
        httpStatus := some status
        rpcErrCode := none
        rpcErrMessage := some ("non-JSONRPC body: " ++ bodyText)
        providerRequestId := none
        error := some ("HTTP " ++ toString status ++ " body: " ++ bodyText)
        endpointUrlUsed := some self.endpoint }

end

/-! ## Verdicts -/

inductive Verdict
  | success
  | rpcError (code : ℤ) (message : String)
  | failure
  deriving DecidableEq, Repr

/-- What the fields of an outcome say: no error, an RPC error that was reported, or a failure. -/
def verdictOf (error : Option String) (rpcErrCode : Option ℤ) (rpcErrMessage : Option String) :
    Verdict :=
  match error with
  | none => .success
  | some _ =>
    match rpcErrCode, rpcErrMessage with
    | some code, some message => .rpcError code message
    | _, _ => .failure

def ofOutcome (o : SendOutcome) : Verdict := verdictOf o.error o.rpcErrCode o.rpcErrMessage

def ofFanOut (o : FanOut.JsonRpc.SendOutcome) : Verdict :=
  verdictOf o.error o.rpcErrCode o.rpcErrMessage

def ofReply : FanoutReply → Verdict
  | .success .. => .success
  | .error _ _ _ code message error => verdictOf (some error) code message

/-- What a body means: the error it reports, else the success of a result, else nothing. -/
def verdict : Option Json → Verdict
  | some (.obj m) =>
    match present? "error" m with
    | some e =>
      match errorObject? e with
      | some (code, message) => .rpcError code message
      | none => .failure
    | none => if ((present? "result" m).bind str?).isSome then .success else .failure
  | _ => .failure

/-- The reply is read by what its verdict needs: by neither record where there is none, and
by that of the fan-out bench, the stricter one on objects, where there is one. -/
def ReadByVerdict (reply : Option Json) : Prop :=
  (verdict reply = .failure →
    reply.bind readResponse = none ∧ reply.bind FanOut.JsonRpc.JsonRpcResponse.read = none) ∧
  (verdict reply ≠ .failure → (reply.bind FanOut.JsonRpc.JsonRpcResponse.read).isSome)

/-- The verdict of a sender for which a reply without an error is a success. -/
def lenient : Option JsonRpcResponse → Verdict
  | none => .failure
  | some r =>
    match r.error with
    | some err => .rpcError err.code err.message
    | none => .success

/-- The fields of the fan-out bench's reply that its senders look at. -/
def short (r : FanOut.JsonRpc.JsonRpcResponse) : JsonRpcResponse :=
  ⟨r.result, r.error.map fun e => ⟨e.code, e.message⟩⟩

theorem lenient_eq_failure_iff {r : Option JsonRpcResponse} : lenient r = .failure ↔ r = none := by
  cases r with
  | none => simp [lenient]
  | some r =>
    obtain ⟨result, error⟩ := r
    cases error <;> simp [lenient]

section Senders

variable (fromStr : String → Option JsonRpcResponse) (parse : String → Option Json)
  (parseSignature : String → Option Signature) (status : ℕ) (body : String)
  (sendAt sendAckAt : Instant)

theorem ofOutcome_triton (self : Triton.TritonSender) (tx : Transaction) :
    ofOutcome (self.send fromStr parseSignature tx sendAt sendAckAt
      (.replied status (some body))) = lenient (fromStr body) := by
  unfold Triton.TritonSender.send Triton.TritonSender.parseReply
  dsimp only [Option.getD_some]
  cases fromStr body with
  | none => rfl
  | some r =>
    obtain ⟨result, error⟩ := r
    cases error <;> rfl

theorem ofOutcome_helius (self : HeliusSender) (tx : Transaction) :
    ofOutcome (self.send fromStr parseSignature tx sendAt sendAckAt
      (.response status (some body))) = lenient (fromStr body) := by
  unfold HeliusSender.send
  dsimp only [Option.getD_some]
  cases fromStr body with
  | none => rfl
  | some r =>
    obtain ⟨result, error⟩ := r
    cases error <;> rfl

theorem ofFanOut_parseJsonrpcOrText (sendAckAt : Option Instant) (signature : Signature) :
    ofFanOut (FanOut.JsonRpc.parseJsonrpcOrText parse parseSignature
        (.response status (some body)) sendAt sendAckAt signature) =
      lenient (((parse body).bind FanOut.JsonRpc.JsonRpcResponse.read).map short) := by
  unfold FanOut.JsonRpc.parseJsonrpcOrText
  dsimp only [Option.getD_some]
  cases (parse body).bind FanOut.JsonRpc.JsonRpcResponse.read with
  | none => rfl
  | some r =>
    obtain ⟨jsonrpc, id, result, error⟩ := r
    cases error <;> rfl

/-- Jito alone takes a reply with neither a result nor an error for a failure. -/
theorem ofReply_jito (hostUrl : String) :
    ofReply (Jito.parseJsonRpcReply fromStr hostUrl status body sendAckAt) =
      if fromStr body = some ⟨none, none⟩ then .failure else lenient (fromStr body) := by
  unfold Jito.parseJsonRpcReply
  cases fromStr body with
  | none => rfl
  | some r =>
    obtain ⟨result, error⟩ := r
    cases error with
    | some err =>
      rw [if_neg (by simp)]
      rfl
    | none => cases result <;> rfl

end Senders

/-- A body with a verdict that the fan-out bench can read is read alike by the other senders,
and their verdict is that of the body. -/
theorem read_of_verdict {j : Json} {r : FanOut.JsonRpc.JsonRpcResponse}
    (hv : verdict (some j) ≠ .failure) (hr : FanOut.JsonRpc.JsonRpcResponse.read j = some r) :
    readResponse j = some (short r) ∧ short r ≠ ⟨none, none⟩ ∧
      lenient (some (short r)) = verdict (some j) := by
  cases j with
  | obj m =>
    obtain ⟨-, -, hresult, herror⟩ := FanOut.JsonRpc.read_obj_eq_some_iff.mp hr
    obtain ⟨jsonrpc, id, result, error⟩ := r
    dsimp only at hresult herror
    unfold verdict at hv ⊢
    dsimp only at hv ⊢
    cases error with
    | none =>
      rw [present?_of_optional_none herror] at hv ⊢
      dsimp only at hv ⊢
      have herror' : optional readError "error" m = some none :=
        optional_eq_none_iff.mpr (optional_eq_none_iff.mp herror)
      cases result with
      | none =>
        rw [present?_of_optional_none hresult] at hv
        exact absurd rfl hv
      | some sig =>
        obtain ⟨v, hv', hsig⟩ := present?_of_optional_some hresult
        rw [hv']
        refine ⟨readResponse_obj_eq_some_iff.mpr ⟨hresult, herror'⟩, by simp [short], ?_⟩
        simp [hsig, lenient, short]
    | some e =>
      obtain ⟨v, hocc, hnull, hread⟩ := optional_eq_some_iff.mp herror
      rw [present?_of_occurrences hocc hnull] at hv ⊢
      dsimp only at hv ⊢
      cases v with
      | obj em =>
        obtain ⟨hcode, hmessage, -⟩ := FanOut.JsonRpc.error_read_obj_eq_some_iff.mp hread
        have hread' : readError (.obj em) = some ⟨e.code, e.message⟩ :=
          readError_obj_eq_some_iff.mpr ⟨hcode, hmessage⟩
        have herror' : optional readError "error" m = some (some ⟨e.code, e.message⟩) :=
          optional_eq_some_iff.mpr ⟨_, hocc, hnull, hread'⟩
        obtain ⟨c, hc, hcode'⟩ := get?_of_required hcode
        obtain ⟨t, ht, hmessage'⟩ := get?_of_required hmessage
        have hint : int? c = some e.code := (Option.filter_eq_some_iff.mp hcode').1
        refine ⟨readResponse_obj_eq_some_iff.mpr ⟨hresult, herror'⟩, by simp [short], ?_⟩
        simp [errorObject?, hc, ht, hint, hmessage', lenient, short]
      | _ => exact absurd rfl hv
  | _ => exact absurd rfl hv

/-! ## Every body -/

/-- The four verdicts on a body are the verdict of the body iff the body is read by both
records where it has one, and by neither where it has none. -/
theorem verdicts_iff (parse : String → Option Json) (parseSignature : String → Option Signature)
    (hostUrl : String) (triton : Triton.TritonSender) (helius : HeliusSender) (tx : Transaction)
    (signature : Signature) (status : ℕ) (body : String) (sendAt sendAckAt : Instant) :
    (ofReply (Jito.parseJsonRpcReply (fun text => (parse text).bind readResponse) hostUrl status
          body sendAckAt) = verdict (parse body) ∧
        ofOutcome (triton.send (fun text => (parse text).bind readResponse) parseSignature tx
          sendAt sendAckAt (.replied status (some body))) = verdict (parse body) ∧
        ofOutcome (helius.send (fun text => (parse text).bind readResponse) parseSignature tx
          sendAt sendAckAt (.response status (some body))) = verdict (parse body) ∧
        ofFanOut (FanOut.JsonRpc.parseJsonrpcOrText parse parseSignature
          (.response status (some body)) sendAt (some sendAckAt) signature) =
            verdict (parse body)) ↔
      ReadByVerdict (parse body) := by
  rw [ofReply_jito, ofOutcome_triton, ofOutcome_helius, ofFanOut_parseJsonrpcOrText]
  constructor
  · rintro ⟨-, hlenient, -, hfanout⟩
    refine ⟨fun hv => ?_, fun hv => ?_⟩
    · rw [hv, lenient_eq_failure_iff] at hlenient hfanout
      exact ⟨hlenient, Option.map_eq_none_iff.mp hfanout⟩
    · rw [← hfanout, Ne, lenient_eq_failure_iff, Option.map_eq_none_iff] at hv
      exact Option.isSome_iff_ne_none.mpr hv
  · rintro ⟨hfailure, hread⟩
    by_cases hv : verdict (parse body) = .failure
    · obtain ⟨hnone, hfanout⟩ := hfailure hv
      rw [hnone, hfanout, hv]
      exact ⟨rfl, rfl, rfl, rfl⟩
    · obtain ⟨r, hr⟩ := Option.isSome_iff_exists.mp (hread hv)
      obtain ⟨j, hj, hr⟩ := Option.bind_eq_some_iff.mp hr
      rw [hj] at hv ⊢
      obtain ⟨hshort, hne, hverdict⟩ := read_of_verdict hv hr
      have hbind : (some j).bind readResponse = some (short r) := hshort
      have hbind' : (some j).bind FanOut.JsonRpc.JsonRpcResponse.read = some r := hr
      rw [hbind, hbind', if_neg (by simpa using hne), Option.map_some, hverdict]
      exact ⟨rfl, rfl, rfl, rfl⟩

/-- The body with a `result` that is `null`, and its tree. -/
def nullResult : String := "\x7b\"jsonrpc\":\"2.0\",\"id\":1,\"result\":null\x7d"

def parseNullResult (text : String) : Option Json :=
  if text = nullResult then
    some (.obj [("jsonrpc", .str "2.0"), ("id", .int 1), ("result", .null)])
  else none

/-- Jito takes the reply without a result for a failure, the three others for a success. -/
theorem empty_reply_verdicts :
    let fromStr := fun text => (parseNullResult text).bind readResponse
    verdict (parseNullResult nullResult) = .failure ∧
      ofReply (Jito.parseJsonRpcReply fromStr "host" 200 nullResult 5) = .failure ∧
      ofOutcome ((Triton.TritonSender.new 3 "triton" "https://a.b/TOKEN").send fromStr
        (fun _ => none) ⟨[11], ""⟩ 0 5 (.replied 200 (some nullResult))) = .success ∧
      ofOutcome ((HeliusSender.mk 1 "helius" "https://c.d").send fromStr (fun _ => none) ⟨[11], ""⟩
        0 5 (.response 200 (some nullResult))) = .success ∧
      ofFanOut (FanOut.JsonRpc.parseJsonrpcOrText parseNullResult (fun _ => none)
        (.response 200 (some nullResult)) 0 (some 5) 11) = .success := by
  decide +kernel

end SolanaBench.TickTrigger.Replies
