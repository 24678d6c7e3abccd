import SolanaBench.TickTrigger.RecorderOutcome

/-! The Jito sender: one transaction posted to every regional host, with the first reply
to complete as the outcome of the send, and what the recorder makes of it. -/
namespace SolanaBench.TickTrigger.Jito

open Recorder

structure JsonRpcError where
  code : ℤ
  message : String
  deriving DecidableEq, Repr

structure JsonRpcResponse where
  result : Option String
  error : Option JsonRpcError
  deriving DecidableEq, Repr

inductive FanoutReply
  | success (hostUrl : String) (sendAckAt : Instant) (signature : String)
      (httpStatus : Option ℕ)
  | error (hostUrl : String) (sendAckAt : Instant) (httpStatus : Option ℕ)
      (rpcErrCode : Option ℤ) (rpcErrMessage : Option String) (error : String)
  deriving DecidableEq, Repr

def FanoutReply.isSuccess : FanoutReply → Bool
  | .success .. => true
  | .error .. => false

/-- How a POST ends. The body is `none` where reading it fails. -/
inductive PostResult
  | response (status : ℕ) (text : Option String)
  | network (e : String)
  deriving DecidableEq, Repr

section Replies

-- `serde_json::from_str::<JsonRpcResponse>`
variable (fromStr : String → Option JsonRpcResponse)

def parseJsonRpcReply (hostUrl : String) (status : ℕ) (body : String) (sendAckAt : Instant) :
    FanoutReply :=
  match fromStr body with
  | some parsed =>
    match parsed.error with
    | some err =>
      .error hostUrl sendAckAt (some status) (some err.code) (some err.message) err.message
    | none =>
      match parsed.result with
      | some sig => .success hostUrl sendAckAt sig (some status)
      | none => .error hostUrl sendAckAt (some status) none (some "empty result") "empty result"
  | none =>
    .error hostUrl sendAckAt (some status) none (some ("non-JSONRPC body: " ++ body))
      ("HTTP " ++ toString status ++ " body: " ++ body)

/-- The task spawned for one host. -/
def fanoutReply (hostUrl : String) (result : PostResult) (sendAckAt : Instant) : FanoutReply :=
  match result with
  | .response status text => parseJsonRpcReply fromStr hostUrl status (text.getD "") sendAckAt
  | .network e => .error hostUrl sendAckAt none none none ("network: " ++ e)

/-- The region took the transaction: a JSON-RPC response with a result and no error. -/
def PostResult.accepts : PostResult → Bool
  | .response _ text =>
    match fromStr (text.getD "") with
    | some parsed => parsed.error.isNone && parsed.result.isSome
    | none => false
  | .network _ => false

/-- The first reply is a success exactly where its region took the transaction. -/
theorem fanoutReply_isSuccess (hostUrl : String) (result : PostResult) (sendAckAt : Instant) :
    (fanoutReply fromStr hostUrl result sendAckAt).isSuccess = result.accepts fromStr := by
  cases result with
  | network e => rfl
  | response status text =>
    simp only [fanoutReply, PostResult.accepts, parseJsonRpcReply]
    cases fromStr (text.getD "") with
    | none => rfl
    | some parsed =>
      obtain ⟨result, error⟩ := parsed
      cases error with
      | some err => rfl
      | none => cases result <;> rfl

end Replies

/-! ## The sender -/

structure Transaction where
  signatures : List Signature
  /-- Base64 of the serialised transaction. -/
  b64 : String
  deriving DecidableEq, Repr

structure SendTransactionOptions where
  encoding : String
  skipPreflight : Bool
  maxRetries : ℕ
  deriving DecidableEq, Repr

structure SendTransactionRequest where
  jsonrpc : String
  id : ℕ
  method : String
  params : String × SendTransactionOptions
  deriving DecidableEq, Repr

inductive Counter
  | txsSent | firstReplyJsonRpc | ipSendCount (ip : ℕ)
  deriving DecidableEq, Repr

/-- A task spawned to post the request from one source address. -/
structure Post where
  hostIdx : ℕ
  hostUrl : String
  ipIdx : ℕ
  body : SendTransactionRequest
  deriving DecidableEq, Repr

abbrev Output := Effect Counter Post

structure JitoBundleSender where
  hosts : List String
  ipCount : ℕ
  ip_pos : 0 < ipCount
  ipCursor : ℕ
  minSendInterval : Duration
  lastSendAt : Option Instant
  deriving DecidableEq, Repr

namespace JitoBundleSender

abbrev hostCount (self : JitoBundleSender) : ℕ := self.hosts.length

/-- The cursor counts on in `usize`. -/
def nextIpIdx (self : JitoBundleSender) : ℕ × JitoBundleSender :=
  (self.ipCursor % self.ipCount, { self with ipCursor := (self.ipCursor + 1) % 2 ^ 64 })

/-- The last send is less than the minimum interval ago. -/
def throttles (self : JitoBundleSender) (now : Instant) : Bool :=
  decide (self.minSendInterval > 0) &&
    match self.lastSendAt with
    | some prev => decide (Instant.saturatingDurationSince now prev < self.minSendInterval)
    | none => false

def stamped (self : JitoBundleSender) (now : Instant) : JitoBundleSender :=
  if self.minSendInterval > 0 then { self with lastSendAt := some now } else self

/-- An outcome decided before or without a reply. -/
def unsent (sendAt : Instant) (sendAckAt : Option Instant) (signature : Signature)
    (error : String) : SendOutcome where
  sendAt := sendAt
  sendAckAt := sendAckAt
  signature := signature
  httpStatus := none
  rpcErrCode := none
  rpcErrMessage := none
  providerRequestId := none
  error := some error
  endpointUrlUsed := none

def request (tx : Transaction) : SendTransactionRequest where
  jsonrpc := "2.0"
  id := 1
  method := "sendTransaction"
  params := (tx.b64, ⟨"base64", true, 0⟩)

def posts (self : JitoBundleSender) (tx : Transaction) (ipIdx : ℕ) : List Output :=
  self.hosts.zipIdx.map fun host => .send ⟨host.2, host.1, ipIdx, request tx⟩

/-- The outcome made of the first reply. -/
def outcomeOf (sendAt : Instant) (signature : Signature) : Option FanoutReply → SendOutcome
  | none => unsent sendAt none signature "all fan-out tasks dropped without reply"
  | some (.success hostUrl sendAckAt sigStr httpStatus) =>
    ⟨sendAt, some sendAckAt, signature, httpStatus, none, none, some sigStr, none, some hostUrl⟩
  | some (.error hostUrl sendAckAt httpStatus rpcErrCode rpcErrMessage error) =>
    ⟨sendAt, some sendAckAt, signature, httpStatus, rpcErrCode, rpcErrMessage, none, some error,
      some hostUrl⟩

def replyCount : Option FanoutReply → List Output
  | some (.success ..) => [.fetchAdd .firstReplyJsonRpc 1]
  | _ => []

/-- The clock readings of a send: on entry, at the throttle, and before the tasks are spawned. -/
structure Readings where
  init : Instant
  now : Instant
  sendAt : Instant
  deriving DecidableEq, Repr

/-- `send`, with the first reply that its tasks complete. -/
def send (self : JitoBundleSender) (tx : Transaction) (clock : Readings)
    (first : Option FanoutReply) : SendOutcome × JitoBundleSender × List Output :=
  let signature := tx.signatures.head?.getD 0
  if self.throttles clock.now then
    (unsent clock.now (some clock.now) signature "throttled_local", self, [])
  else
    let self := self.stamped clock.now
    if self.hostCount = 0 then
      (unsent clock.init none signature "no regions configured", self, [])
    else
      let (ipIdx, next) := self.nextIpIdx
      (outcomeOf clock.sendAt signature first, next,
        .fetchAdd .txsSent 1 ::
          (if ipIdx < 8 then [.fetchAdd (.ipSendCount ipIdx) 1] else []) ++
          self.posts tx ipIdx ++ replyCount first)

variable (self : JitoBundleSender) (tx : Transaction) (clock : Readings)

@[simp] theorem stamped_hosts (now : Instant) : (self.stamped now).hosts = self.hosts := by
  unfold stamped
  split <;> rfl

/-- One task for every host. -/
theorem mem_posts (ipIdx hostIdx : ℕ) :
    (∃ p ∈ Effect.sent (self.posts tx ipIdx), p.hostIdx = hostIdx) ↔
      hostIdx < self.hosts.length := by
  have hsent : Effect.sent (self.posts tx ipIdx) =
      self.hosts.zipIdx.map fun host => ⟨host.2, host.1, ipIdx, request tx⟩ := by
    simp [posts, Effect.sent, List.filterMap_map, Function.comp_def, Effect.sent?]
  rw [hsent]
  simp [List.mem_zipIdx_iff_getElem?, ← Option.isSome_iff_exists]

@[simp] theorem sent_replyCount (first : Option FanoutReply) :
    Effect.sent (replyCount first) = [] := by
  rcases first with _ | reply
  · rfl
  · cases reply <;> rfl

/-- The transaction goes to every host or, when the send is throttled, to none. -/
theorem sent_send (first : Option FanoutReply) (hostIdx : ℕ) :
    (∃ p ∈ Effect.sent (self.send tx clock first).2.2, p.hostIdx = hostIdx) ↔
      self.throttles clock.now = false ∧ hostIdx < self.hostCount := by
  have hcount : (self.stamped clock.now).hostCount = self.hostCount := by simp [hostCount]
  unfold send
  by_cases ht : self.throttles clock.now
  · simp [ht]
  · by_cases hh : self.hostCount = 0
    · simp [ht, hcount, hh]
    · have hif (ip : ℕ) : Effect.sent (if ip < 8 then [(.fetchAdd (.ipSendCount ip) 1 : Output)]
          else []) = [] := by split <;> rfl
      simp only [ht, hcount, hh, if_false, Bool.false_eq_true, List.cons_append,
        Effect.sent_fetchAdd, Effect.sent_append, hif, sent_replyCount, List.nil_append,
        List.append_nil, mem_posts, stamped_hosts, true_and]

theorem outcomeOf_error (sendAt : Instant) (signature : Signature) (first : Option FanoutReply) :
    (outcomeOf sendAt signature first).error.isSome = !first.any FanoutReply.isSuccess := by
  rcases first with _ | reply
  · rfl
  · cases reply <;> rfl

/-- A posted transaction is a send error unless the first reply is a success. -/
theorem send_error (first : Option FanoutReply) (ht : self.throttles clock.now = false)
    (hh : self.hostCount ≠ 0) :
    (self.send tx clock first).1.error.isSome = !first.any FanoutReply.isSuccess := by
  have hhosts : ((self.stamped clock.now).hostCount = 0) = False := by
    simpa [hostCount] using hh
  simp only [send, ht, hhosts, if_false, Bool.false_eq_true]
  exact outcomeOf_error ..

end JitoBundleSender

/-! ## The regions -/

/-- How the POSTs of one send end: the reply of every region, when it comes, and the
order in which the tasks complete. -/
structure Regions (sender : JitoBundleSender) where
  result : Fin sender.hostCount → PostResult
  ackAt : Fin sender.hostCount → Instant
  order : List (Fin sender.hostCount)

namespace Regions

variable {self : JitoBundleSender}

/-- What `rx_first.recv` returns. -/
def first (fromStr : String → Option JsonRpcResponse) (w : Regions self) : Option FanoutReply :=
  w.order.head?.map fun i =>
    fanoutReply fromStr (self.hosts.get i) (w.result i) (w.ackAt i)

/-- The first reply to complete is that of a region which took the transaction. -/
def FirstAccepts (fromStr : String → Option JsonRpcResponse) (w : Regions self) : Prop :=
  ∃ i, w.order.head? = some i ∧ (w.result i).accepts fromStr

theorem first_isSuccess (fromStr : String → Option JsonRpcResponse) (w : Regions self) :
    (w.first fromStr).any FanoutReply.isSuccess ↔ w.FirstAccepts fromStr := by
  unfold first FirstAccepts
  cases w.order.head? with
  | none => simp
  | some i => simp [fanoutReply_isSuccess]

end Regions

/-- Some region was sent the transaction and took it. -/
def Accepted (fromStr : String → Option JsonRpcResponse) (self : JitoBundleSender)
    (tx : Transaction) (clock : JitoBundleSender.Readings) (w : Regions self) : Prop :=
  ∃ i, (w.result i).accepts fromStr ∧
    ∃ p ∈ Effect.sent (self.send tx clock (w.first fromStr)).2.2, p.hostIdx = i.val

/-- An accepted attempt is no send error, and its match makes it landed. -/
def KeepsAccepted (fromStr : String → Option JsonRpcResponse) (self : JitoBundleSender)
    (tx : Transaction) (clock : JitoBundleSender.Readings) (w : Regions self)
    (cfg : RecorderConfig) (reg : RegisterEvent) (before after : List Input) : Prop :=
  Accepted fromStr self tx clock w →
    ∃ row, rowsOf reg.key (runLoop cfg (before ++ .register reg :: after)).2 = [row] ∧
      row.finalOutcome ≠ .sendError ∧
      (MatchedInTime cfg reg after → row.finalOutcome = .landed)

/-- A fan-out keeps its accepted transaction exactly where the first reply to complete is
an accepting one, or no reply of the attempt is served while the attempt is open. -/
theorem keepsAccepted_iff (fromStr : String → Option JsonRpcResponse) (self : JitoBundleSender)
    (tx : Transaction) (clock : JitoBundleSender.Readings) (w : Regions self)
    (cfg : RecorderConfig) (reg : RegisterEvent) (before after : List Input)
    (hown : Unshared reg (before ++ after))
    (hreply : ∀ s, .send s ∈ after → s.key = reg.key →
      s.outcome = (self.send tx clock (w.first fromStr)).1) :
    KeepsAccepted fromStr self tx clock w cfg reg before after ↔
      (Accepted fromStr self tx clock w → AnsweredWhileOpen cfg reg after →
        w.FirstAccepts fromStr) := by
  refine forall_congr' fun hacc => ?_
  obtain ⟨i, -, hposted⟩ := hacc
  obtain ⟨hsent, hi⟩ := (self.sent_send tx clock _ i.val).mp hposted
  have herror := self.send_error tx clock (w.first fromStr) hsent (by omega)
  have hsendError : closedAs cfg reg after = .sendError ↔ _ := closedAs_sendError_iff
    fun s hs hk => (congrArg (fun o => o.error.isSome) (hreply s hs hk)).trans herror
  have hlost : closedAs cfg reg after = .sendError ↔
      AnsweredWhileOpen cfg reg after ∧ ¬w.FirstAccepts fromStr := by
    rw [hsendError, ← w.first_isSuccess fromStr]
    simp [and_comm]
  obtain ⟨row, hrow, -, hout⟩ := row_of_attempt cfg reg hown
  constructor
  · rintro ⟨row', hrow', hne, -⟩ hopen
    obtain rfl : row' = row := by simpa [hrow] using hrow'.symm
    rw [hout, ne_eq, hlost] at hne
    simpa [hopen] using hne
  · intro hfirst
    have hne : closedAs cfg reg after ≠ .sendError := fun h =>
      (hlost.mp h).2 (hfirst (hlost.mp h).1)
    exact ⟨row, hrow, hout ▸ hne, fun hm => hout.trans (closedAs_landed hm hne)⟩

/-! Two regions, of which one is over its rate limit and the other takes the transaction. -/

def acceptedBody : String := "\x7b\"result\":\"5sig\"\x7d"

def limitedBody : String :=
  "\x7b\"error\":\x7b\"code\":-32097,\"message\":\"rate limited\"\x7d\x7d"

def sampleFromStr (body : String) : Option JsonRpcResponse :=
  if body = acceptedBody then some ⟨some "5sig", none⟩
  else if body = limitedBody then some ⟨none, some ⟨-32097, "rate limited"⟩⟩
  else none

def sampleSender : JitoBundleSender where
  hosts := ["amsterdam", "frankfurt"]
  ipCount := 1
  ip_pos := Nat.one_pos
  ipCursor := 0
  minSendInterval := 0
  lastSendAt := none

def amsterdam : Fin sampleSender.hostCount := ⟨0, by decide⟩
def frankfurt : Fin sampleSender.hostCount := ⟨1, by decide⟩

def sampleTx : Transaction := ⟨[11], "AQ"⟩

def sampleReadings : JitoBundleSender.Readings := ⟨2_100, 2_100, 2_200⟩

def sampleRegions (order : List (Fin sampleSender.hostCount)) : Regions sampleSender where
  result i := .response 200 (some (if i = amsterdam then limitedBody else acceptedBody))
  ackAt i := 3_000 + i.val
  order := order

/-- The reply of the send, and then the match of its transaction. -/
def sampleAfter (order : List (Fin sampleSender.hostCount)) : List Input :=
  [.send ⟨sampleRegister.triggerId, sampleRegister.senderId,
    (sampleSender.send sampleTx sampleReadings ((sampleRegions order).first sampleFromStr)).1⟩,
    .matched sampleMatch ⟨∅, 64⟩ 9_000]

theorem keepsAccepted_iff_acceptedFirst :
    Accepted sampleFromStr sampleSender sampleTx sampleReadings
        (sampleRegions [frankfurt, amsterdam]) ∧
      KeepsAccepted sampleFromStr sampleSender sampleTx sampleReadings
        (sampleRegions [frankfurt, amsterdam]) sampleConfig sampleRegister []
        (sampleAfter [frankfurt, amsterdam]) := by
  have haccepts : ((sampleRegions [frankfurt, amsterdam]).result frankfurt).accepts
      sampleFromStr := by decide +kernel
  refine ⟨⟨frankfurt, haccepts, by decide +kernel⟩, ?_⟩
  refine (keepsAccepted_iff sampleFromStr sampleSender sampleTx sampleReadings
    (sampleRegions [frankfurt, amsterdam]) sampleConfig sampleRegister []
    (sampleAfter [frankfurt, amsterdam]) (by decide +kernel) ?_).mpr
      fun _ _ => ⟨frankfurt, rfl, haccepts⟩
  intro s hs _
  obtain rfl : s = _ := by simpa [sampleAfter] using hs
  rfl

/-- The region over its limit replies first, and the accepted transaction is forgotten. -/
theorem first_error_forgets_accepted :
    MatchedInTime sampleConfig sampleRegister (sampleAfter [amsterdam, frankfurt]) ∧
      ¬KeepsAccepted sampleFromStr sampleSender sampleTx sampleReadings
        (sampleRegions [amsterdam, frankfurt]) sampleConfig sampleRegister []
        (sampleAfter [amsterdam, frankfurt]) := by
  have haccepts : ((sampleRegions [amsterdam, frankfurt]).result frankfurt).accepts
      sampleFromStr := by decide +kernel
  have hrows : (rowsOf sampleRegister.key (runLoop sampleConfig
      ([] ++ .register sampleRegister :: sampleAfter [amsterdam, frankfurt])).2).map
        TriggerRecord.finalOutcome = [.sendError] := by decide +kernel
  refine ⟨by decide +kernel, fun h => ?_⟩
  obtain ⟨row, hrow, hne, -⟩ := h ⟨frankfurt, haccepts, by decide +kernel⟩
  rw [hrow] at hrows
  exact hne (by simpa using hrows)

end SolanaBench.TickTrigger.Jito
