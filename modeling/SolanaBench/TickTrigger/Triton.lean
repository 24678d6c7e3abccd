import SolanaBench.Lib.Text
import SolanaBench.TickTrigger.Jito

/-! The Triton sender: one POST to an endpoint whose URL carries a secret token, and what its
records tell of that URL. The JSON and signature parsers are parameters, and so is the text of
a failure of the HTTP client, which may depend on the URL. -/
namespace SolanaBench.TickTrigger.Triton

open Recorder Text
open Jito (JsonRpcResponse Transaction)

/-- `split('/').next()`. -/
def beforeSlash (s : List Char) : List Char := s.takeWhile fun c => decide (c ≠ '/')

def schemeSep : List Char := [':', '/', '/']

def redactEndpoint (url : String) : String :=
  match splitOnce schemeSep url.toList with
  | some (scheme, rest) => String.ofList scheme ++ "://" ++ String.ofList (beforeSlash rest)
  | none => String.ofList (beforeSlash url.toList)

inductive ParsedReply
  | ok (signature : Option String)
  | rpcError (code : ℤ) (message : String)
  | nonJson (body : String)
  deriving DecidableEq, Repr

structure TritonSender where
  id : ℕ
  name : String
  endpoint : String
  endpointDisplay : String
  deriving DecidableEq, Repr

/-- How the network behaves towards one POST: the client fails with a text that may contain the
URL, or a reply arrives, with `none` as the body where reading it fails. -/
inductive NetworkBehaviour
  | failed (errorText : String → String)
  | replied (status : ℕ) (text : Option String)

namespace TritonSender

def new (id : ℕ) (name endpoint : String) : TritonSender :=
  { id, name, endpoint, endpointDisplay := redactEndpoint endpoint }

def endpointUrl (self : TritonSender) : String := self.endpointDisplay

section

-- `serde_json::from_str::<JsonRpcResponse>` and the parser of base58 signatures
variable (fromStr : String → Option JsonRpcResponse) (parseSignature : String → Option Signature)

def parseReply (body : String) : ParsedReply :=
  match fromStr body with
  | some r =>
    match r.error with
    | some err => .rpcError err.code err.message
    | none => .ok r.result
  | none => .nonJson body

/-- `send`, between the two clock readings. -/
def send (self : TritonSender) (tx : Transaction) (sendAt sendAckAt : Instant)
    (net : NetworkBehaviour) : SendOutcome :=
  let signature := tx.signatures.head?.getD 0
  let redacted := self.endpointDisplay
  match net with
  | .failed errorText =>
    { sendAt, sendAckAt := none, signature
      httpStatus := none
      rpcErrCode := none
      rpcErrMessage := none
      providerRequestId := none
      error := some ("network: " ++ errorText self.endpoint)
      endpointUrlUsed := some redacted }
  | .replied status text =>
    match parseReply fromStr (text.getD "") with
    | .ok returned =>
      { sendAt, sendAckAt := some sendAckAt
        signature := (returned.bind parseSignature).getD signature
        httpStatus := some status
        rpcErrCode := none
        rpcErrMessage := none
        providerRequestId := none
        error := none
        endpointUrlUsed := some redacted }
    | .rpcError code message =>
      { sendAt, sendAckAt := some sendAckAt, signature
        httpStatus := some status
        rpcErrCode := some code
        rpcErrMessage := some message
        providerRequestId := none
        error := some message
        endpointUrlUsed := some redacted }
    | .nonJson body =>
      { sendAt, sendAckAt := some sendAckAt, signature
        httpStatus := some status
        rpcErrCode := none
        rpcErrMessage := some ("non-JSONRPC body: " ++ body)
        providerRequestId := none
        error := some ("HTTP " ++ toString status ++ " body: " ++ body)
        endpointUrlUsed := some redacted }

end

end TritonSender

/-! ## What the records tell of the URL -/

/-- The authority ends at the first `/`, `?` or `#`. -/
def inAuthority (c : Char) : Bool := decide (c ≠ '/') && decide (c ≠ '?') && decide (c ≠ '#')

def authority (rest : List Char) : List Char := rest.takeWhile inAuthority

/-- What stands between the authority and the next `/`: nothing, or a query or fragment. -/
def beforePath (rest : List Char) : List Char := beforeSlash (rest.dropWhile inAuthority)

/-- The scheme and the authority of a URL that has a scheme. -/
def origin (url : String) : Option (List Char × List Char) :=
  (splitOnce schemeSep url.toList).map fun p => (p.1, authority p.2)

def queryBeforePath (url : String) : Option (List Char) :=
  (splitOnce schemeSep url.toList).map fun p => beforePath p.2

/-- The text fields of an outcome. -/
def texts (o : SendOutcome) : Option String × Option String × Option String :=
  (o.error, o.rpcErrMessage, o.endpointUrlUsed)

/-- The redaction keeps everything up to the first `/`, and with it what `?` or `#` begin. -/
theorem beforeSlash_eq (rest : List Char) :
    beforeSlash rest = authority rest ++ beforePath rest := by
  induction rest with
  | nil => rfl
  | cons c rest ih =>
    unfold beforeSlash authority beforePath at ih ⊢
    cases hc : inAuthority c with
    | true =>
      have hslash : c ≠ '/' := by
        rintro rfl
        cases hc
      rw [List.takeWhile_cons_of_pos (by simpa using hslash), List.takeWhile_cons_of_pos hc,
        List.dropWhile_cons_of_pos hc, ih]
      rfl
    | false => simp [hc, beforeSlash]

theorem redactEndpoint_eq_iff {u v : String} {o : List Char × List Char} (hu : origin u = some o)
    (hv : origin v = some o) :
    redactEndpoint u = redactEndpoint v ↔ queryBeforePath u = queryBeforePath v := by
  obtain ⟨⟨scheme, restU⟩, hsplitU, rfl⟩ := Option.map_eq_some_iff.mp hu
  obtain ⟨⟨scheme', restV⟩, hsplitV, heq⟩ := Option.map_eq_some_iff.mp hv
  obtain ⟨hscheme, hauth⟩ := Prod.mk.inj heq
  dsimp only at hscheme hauth
  unfold redactEndpoint queryBeforePath
  rw [hsplitU, hsplitV]
  dsimp only
  rw [hscheme, String.append_right_inj, String.ofList_inj, beforeSlash_eq, beforeSlash_eq, hauth,
    List.append_cancel_left_eq]
  simp

/-- An outcome depends on the endpoint through its redacted form and the client's error. -/
theorem texts_send_eq_iff (fromStr : String → Option JsonRpcResponse)
    (parseSignature : String → Option Signature) (id : ℕ) (name u v : String) (tx : Transaction)
    (sendAt sendAckAt : Instant) (net : NetworkBehaviour) :
    texts ((TritonSender.new id name u).send fromStr parseSignature tx sendAt sendAckAt net) =
        texts ((TritonSender.new id name v).send fromStr parseSignature tx sendAt sendAckAt net) ↔
      redactEndpoint u = redactEndpoint v ∧
        ∀ errorText, net = .failed errorText → errorText u = errorText v := by
  cases net with
  | failed errorText =>
    simp [TritonSender.send, TritonSender.new, texts, String.append_right_inj, and_comm]
  | replied status text =>
    simp only [TritonSender.send, TritonSender.new, texts, reduceCtorEq, IsEmpty.forall_iff,
      implies_true, and_true]
    cases TritonSender.parseReply fromStr (text.getD "") <;> simp

/-- Two endpoints with the same scheme and authority are told apart by the records exactly if
they differ before the next `/`, or the client fails with texts that differ. -/
theorem endpoint_secret_iff (fromStr : String → Option JsonRpcResponse)
    (parseSignature : String → Option Signature) (id : ℕ) (name : String) (tx : Transaction)
    (sendAt sendAckAt : Instant) (net : NetworkBehaviour) {u v : String}
    {o : List Char × List Char} (hu : origin u = some o) (hv : origin v = some o) :
    ((TritonSender.new id name u).endpointUrl = (TritonSender.new id name v).endpointUrl ∧
        texts ((TritonSender.new id name u).send fromStr parseSignature tx sendAt sendAckAt net) =
          texts ((TritonSender.new id name v).send fromStr parseSignature tx sendAt sendAckAt
            net)) ↔
      queryBeforePath u = queryBeforePath v ∧
        ∀ errorText, net = .failed errorText → errorText u = errorText v := by
  have hurl : (TritonSender.new id name u).endpointUrl =
      (TritonSender.new id name v).endpointUrl ↔ redactEndpoint u = redactEndpoint v := Iff.rfl
  rw [hurl, texts_send_eq_iff, redactEndpoint_eq_iff hu hv, ← and_assoc, and_self]

/-- Tokens in the path after a plain authority, and a reply. -/
theorem endpoint_secret_iff_documented :
    let u := TritonSender.new 3 "triton" "https://a.b/ONE"
    let v := TritonSender.new 3 "triton" "https://a.b/TWO"
    let net := NetworkBehaviour.replied 502 (some "502 Bad Gateway")
    u.endpointUrl = v.endpointUrl ∧
      texts (u.send (fun _ => none) (fun _ => none) ⟨[], ""⟩ 0 1 net) =
        texts (v.send (fun _ => none) (fun _ => none) ⟨[], ""⟩ 0 1 net) := by
  have hu : origin "https://a.b/ONE" = some ("https".toList, "a.b".toList) := by decide
  have hv : origin "https://a.b/TWO" = some ("https".toList, "a.b".toList) := by decide
  exact (endpoint_secret_iff (fun _ => none) (fun _ => none) 3 "triton" ⟨[], ""⟩ 0 1
    (.replied 502 (some "502 Bad Gateway")) hu hv).mpr ⟨by decide, by simp⟩

/-- A token in the query is displayed, and a failed request to a token in the path shows it. -/
theorem token_leaks :
    let u := TritonSender.new 3 "triton" "https://a.b?ONE"
    let v := TritonSender.new 3 "triton" "https://a.b?TWO"
    let u' := TritonSender.new 3 "triton" "https://a.b/ONE"
    let v' := TritonSender.new 3 "triton" "https://a.b/TWO"
    let net := NetworkBehaviour.failed fun url =>
      "error sending request for url (" ++ url ++ ")"
    (origin u.endpoint = origin v.endpoint ∧ u.endpointUrl ≠ v.endpointUrl) ∧
      origin u'.endpoint = origin v'.endpoint ∧
        (u'.send (fun _ => none) (fun _ => none) ⟨[], ""⟩ 0 1 net).error ≠
          (v'.send (fun _ => none) (fun _ => none) ⟨[], ""⟩ 0 1 net).error := by
  decide

end SolanaBench.TickTrigger.Triton
