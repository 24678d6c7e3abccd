import Mathlib.Data.Finset.Card
import Mathlib.Data.List.AList
import SolanaBench.Lib.Effect
import SolanaBench.Nonce.Manager
import SolanaBench.TickTrigger.TriggerEngine

/-! The recorder: one attempt per `(trigger_id, sender_id)`, closed by a send
error, an observed match, its deadline or the shutdown flush, with one record
written for each. -/
namespace SolanaBench.TickTrigger.Recorder

open Nonce LocalCompute
open TriggerEngine (TriggerId MatchEvent)

structure RegisterEvent where
  triggerId : TriggerId
  senderId : ℕ
  senderName : String
  endpointUrl : String
  protocol : String
  signature : Signature
  slot : ℕ
  tick : ℕ
  triggerObservedAt : Instant
  preparedAt : Instant
  blockhash : Hash
  nonceId : Option NonceId
  deriving DecidableEq, Repr

structure SendOutcome where
  sendAt : Instant
  sendAckAt : Option Instant
  signature : Signature
  httpStatus : Option ℕ
  rpcErrCode : Option ℤ
  rpcErrMessage : Option String
  providerRequestId : Option String
  error : Option String
  endpointUrlUsed : Option String
  deriving DecidableEq, Repr

structure SendEvent where
  triggerId : TriggerId
  senderId : ℕ
  outcome : SendOutcome
  deriving DecidableEq, Repr

inductive FinalOutcome
  | landed | sendError | unknownPending
  deriving DecidableEq, Repr

/-- A JSONL row; the two `to_string` conversions are left out. -/
structure TriggerRecord where
  runId : String
  triggerId : TriggerId
  slot : ℕ
  tick : ℕ
  senderId : ℕ
  senderName : String
  endpointUrl : String
  protocol : String
  txSignature : Signature
  blockhash : Hash
  triggerObservedAtNs : ℕ
  preparedAtNs : ℕ
  sendAtNs : ℕ
  sendAckAtNs : Option ℕ
  observedAtNs : Option ℕ
  wallPreparedToSendNs : Option ℕ
  wallSendRttNs : Option ℕ
  wallSendToObservedNs : Option ℕ
  wallTriggerToObservedNs : Option ℕ
  observedSlot : Option ℕ
  observedEntryIndex : Option U32
  observedTick : Option ℕ
  observedSource : Option String
  httpStatus : Option ℕ
  rpcErrCode : Option ℤ
  rpcErrMessage : Option String
  sendError : Option String
  endpointUrlUsed : Option String
  providerRequestId : Option String
  finalOutcome : FinalOutcome
  deriving DecidableEq, Repr

abbrev Key := TriggerId × ℕ

def RegisterEvent.key (r : RegisterEvent) : Key := (r.triggerId, r.senderId)
def SendEvent.key (s : SendEvent) : Key := (s.triggerId, s.senderId)
def TriggerRecord.key (r : TriggerRecord) : Key := (r.triggerId, r.senderId)

inductive Counter
  | recordsLanded | recordsSendError | recordsUnknownPending
  | registerEvents | sendEvents | matchEvents
  | nonceAdvancedLocal | nonceLocalComputeMiss
  deriving DecidableEq, Repr

/-- A row appended to the file, or a call into the nonce manager. -/
inductive Event
  | record (r : TriggerRecord)
  | nonce (a : NonceManager.Action)
  deriving DecidableEq, Repr

abbrev Output := Effect Counter Event

/-! ## Aggregates -/

structure PerSenderStats where
  senderId : ℕ
  attempts : ℕ := 0
  landed : ℕ := 0
  sendError : ℕ := 0
  unknownPending : ℕ := 0
  sendRttUsSum : ℕ := 0
  sendRttUsCount : ℕ := 0
  sendToObservedUsSum : ℕ := 0
  sendToObservedUsCount : ℕ := 0
  deriving DecidableEq, Repr

structure AggregateState where
  firstSendAt : Option Instant := none
  lastSendAt : Option Instant := none
  triggersAttempted : Finset TriggerId := ∅
  triggersLanded : Finset TriggerId := ∅
  perSender : AList (fun _ : ℕ => PerSenderStats) := ∅
  attemptsTotal : ℕ := 0
  attemptsLanded : ℕ := 0
  attemptsSendError : ℕ := 0
  attemptsUnknownPending : ℕ := 0

/-- `as_micros() as u64`. -/
def asMicrosU64 (d : Duration) : ℕ := (d / 1000) % 2 ^ 64

namespace AggregateState

/-- `per_sender.entry(id).or_insert(..)`. -/
def stats (agg : AggregateState) (senderId : ℕ) : PerSenderStats :=
  (agg.perSender.lookup senderId).getD ⟨senderId, 0, 0, 0, 0, 0, 0, 0, 0⟩

def recordRegister (agg : AggregateState) (reg : RegisterEvent) : AggregateState :=
  let entry := agg.stats reg.senderId
  { agg with
    triggersAttempted := insert reg.triggerId agg.triggersAttempted
    perSender := agg.perSender.insert reg.senderId { entry with attempts := entry.attempts + 1 }
    attemptsTotal := agg.attemptsTotal + 1 }

def addRtt (stats : PerSenderStats) (outcome : SendOutcome) : PerSenderStats :=
  match outcome.sendAckAt with
  | some ack =>
    let rttUs := asMicrosU64 (Instant.saturatingDurationSince ack outcome.sendAt)
    { stats with
      sendRttUsSum := stats.sendRttUsSum + rttUs
      sendRttUsCount := stats.sendRttUsCount + 1 }
  | none => stats

def recordSend (agg : AggregateState) (ev : SendEvent) : AggregateState :=
  let sendAt := ev.outcome.sendAt
  { agg with
    firstSendAt := some (match agg.firstSendAt with | none => sendAt | some t => min t sendAt)
    lastSendAt := some (match agg.lastSendAt with | none => sendAt | some t => max t sendAt)
    perSender :=
      match agg.perSender.lookup ev.senderId with
      | some stats => agg.perSender.insert ev.senderId (addRtt stats ev.outcome)
      | none => agg.perSender }

def recordOutcome (agg : AggregateState) (triggerId : TriggerId) (senderId : ℕ)
    (outcome : FinalOutcome) (sendToObservedUs : Option ℕ) : AggregateState :=
  let stats := agg.stats senderId
  match outcome with
  | .landed =>
    let counted := { stats with landed := stats.landed + 1 }
    { agg with
      attemptsLanded := agg.attemptsLanded + 1
      triggersLanded := insert triggerId agg.triggersLanded
      perSender := agg.perSender.insert senderId
        (match sendToObservedUs with
        | some us =>
          { counted with
            sendToObservedUsSum := stats.sendToObservedUsSum + us
            sendToObservedUsCount := stats.sendToObservedUsCount + 1 }
        | none => counted) }
  | .sendError =>
    { agg with
      attemptsSendError := agg.attemptsSendError + 1
      perSender := agg.perSender.insert senderId { stats with sendError := stats.sendError + 1 } }
  | .unknownPending =>
    { agg with
      attemptsUnknownPending := agg.attemptsUnknownPending + 1
      perSender := agg.perSender.insert senderId
        { stats with unknownPending := stats.unknownPending + 1 } }

end AggregateState

/-- The summary at shutdown; `active_secs`, a float, is left out. -/
structure ActiveWindowSummary where
  firstSendAtNs : Option ℕ
  lastSendAtNs : Option ℕ
  triggersAttempted : ℕ
  triggersLanded : ℕ
  attemptsTotal : ℕ
  attemptsLanded : ℕ
  attemptsSendError : ℕ
  attemptsUnknownPending : ℕ
  perSender : List PerSenderStats
  deriving DecidableEq, Repr

def AggregateState.intoSummary (agg : AggregateState) (anchor : Instant) :
    ActiveWindowSummary where
  firstSendAtNs := agg.firstSendAt.map fun t => Instant.saturatingDurationSince t anchor % 2 ^ 64
  lastSendAtNs := agg.lastSendAt.map fun t => Instant.saturatingDurationSince t anchor % 2 ^ 64
  triggersAttempted := agg.triggersAttempted.card
  triggersLanded := agg.triggersLanded.card
  attemptsTotal := agg.attemptsTotal
  attemptsLanded := agg.attemptsLanded
  attemptsSendError := agg.attemptsSendError
  attemptsUnknownPending := agg.attemptsUnknownPending
  perSender :=
    (agg.perSender.entries.map Sigma.snd).mergeSort fun a b => decide (a.senderId ≤ b.senderId)

/-! ## The loop -/

structure TriggerAttempt where
  register : Option RegisterEvent
  send : Option SendEvent
  matched : Option MatchEvent
  deadlineAt : Instant
  deriving DecidableEq, Repr

structure RecorderConfig where
  runId : String
  anchor : Instant
  deadline : Duration
  /-- Whether the nonce manager and the slot hash cache are configured. -/
  nonceMode : Bool
  computeNextDurableNonce : Hash → Hash

/-- The three variables of `run_loop`. -/
structure State where
  attempts : AList (fun _ : Key => TriggerAttempt) := ∅
  sigToKey : AList (fun _ : Signature => Key) := ∅
  agg : AggregateState := {}

def outcomeCounter : FinalOutcome → Counter
  | .landed => .recordsLanded
  | .sendError => .recordsSendError
  | .unknownPending => .recordsUnknownPending

/-- `saturating_duration_since(anchor).as_nanos() as u64`. -/
def nsSince (cfg : RecorderConfig) (t : Instant) : ℕ :=
  Instant.saturatingDurationSince t cfg.anchor % 2 ^ 64

def sourceName : SourceKind → String
  | .shredStream => "SS"
  | .yellowstone => "YS"

def triggerRecord (cfg : RecorderConfig) (att : TriggerAttempt) (reg : RegisterEvent)
    (outcome : FinalOutcome) : TriggerRecord :=
  let triggerObservedAtNs := nsSince cfg reg.triggerObservedAt
  let preparedAtNs := nsSince cfg reg.preparedAt
  let sent := att.send.map SendEvent.outcome
  let sendAtNs := (sent.map fun o => nsSince cfg o.sendAt).getD 0
  let sendAckAtNs := sent.bind fun o => o.sendAckAt.map (nsSince cfg)
  let observedAtNs := att.matched.map fun m => nsSince cfg m.observedAt
  { runId := cfg.runId
    triggerId := reg.triggerId
    slot := reg.slot
    tick := reg.tick
    senderId := reg.senderId
    senderName := reg.senderName
    endpointUrl := reg.endpointUrl
    protocol := reg.protocol
    txSignature := reg.signature
    blockhash := reg.blockhash
    triggerObservedAtNs := triggerObservedAtNs
    preparedAtNs := preparedAtNs
    sendAtNs := sendAtNs
    sendAckAtNs := sendAckAtNs
    observedAtNs := observedAtNs
    wallPreparedToSendNs := sent.map fun _ => sendAtNs - preparedAtNs
    wallSendRttNs := sendAckAtNs.map fun ackNs => ackNs - sendAtNs
    wallSendToObservedNs := sent.bind fun _ => observedAtNs.map fun obsNs => obsNs - sendAtNs
    wallTriggerToObservedNs := observedAtNs.map fun obsNs => obsNs - triggerObservedAtNs
    observedSlot := att.matched.map MatchEvent.observedSlot
    observedEntryIndex := att.matched.map MatchEvent.observedEntryIndex
    observedTick := att.matched.map MatchEvent.observedTick
    observedSource := att.matched.map fun m => sourceName m.observedSource
    httpStatus := sent.bind SendOutcome.httpStatus
    rpcErrCode := sent.bind SendOutcome.rpcErrCode
    rpcErrMessage := sent.bind SendOutcome.rpcErrMessage
    sendError := sent.bind SendOutcome.error
    endpointUrlUsed := sent.bind SendOutcome.endpointUrlUsed
    providerRequestId := sent.bind SendOutcome.providerRequestId
    finalOutcome := outcome }

/-- The row is counted and appended; an attempt without registration leaves none. -/
def emitRecord (cfg : RecorderConfig) (att : TriggerAttempt) (outcome : FinalOutcome) :
    List Output :=
  match att.register with
  | none => []
  | some reg =>
    [.fetchAdd (outcomeCounter outcome) 1, .send (.record (triggerRecord cfg att reg outcome))]

/-- Remove the attempt and its signature, write its row and count its outcome. -/
def conclude (cfg : RecorderConfig) (outcome : FinalOutcome)
    (sendToObservedUs : TriggerAttempt → Option ℕ) (st : State) (key : Key) :
    State × List Output :=
  match st.attempts.lookup key with
  | none => (st, [])
  | some att =>
    ({ attempts := st.attempts.erase key
       sigToKey :=
         match att.register with
         | some reg => st.sigToKey.erase reg.signature
         | none => st.sigToKey
       agg :=
         match att.register with
         | some reg =>
           st.agg.recordOutcome reg.triggerId reg.senderId outcome (sendToObservedUs att)
         | none => st.agg },
      emitRecord cfg att outcome)

def handleRegister (cfg : RecorderConfig) (st : State) (reg : RegisterEvent) : State :=
  { st with
    sigToKey := st.sigToKey.insert reg.signature reg.key
    attempts := st.attempts.insert reg.key
      ⟨some reg, none, none, reg.triggerObservedAt + cfg.deadline⟩ }

/-- A send error is terminal: there is no signature left to observe. -/
def handleSend (cfg : RecorderConfig) (st : State) (s : SendEvent) : State × List Output :=
  match st.attempts.lookup s.key with
  | none => (st, [])
  | some att =>
    let st := { st with attempts := st.attempts.insert s.key { att with send := some s } }
    if s.outcome.error.isSome then conclude cfg .sendError (fun _ => none) st s.key
    else (st, [])

/-- Push the next nonce to the manager, or mark the landing where the cache has no hash. -/
def nonceHook (cfg : RecorderConfig) (att : TriggerAttempt) (m : MatchEvent)
    (cache : SlotHashCache) (now : Instant) : List Output :=
  if cfg.nonceMode then
    match att.register.bind RegisterEvent.nonceId with
    | none => []
    | some nonceId =>
      match cache.nextNonceForLandedSlot cfg.computeNextDurableNonce m.observedSlot 5 with
      | some r =>
        [.send (.nonce (.landingWithBlockhash nonceId r.2.2)), .fetchAdd .nonceAdvancedLocal 1]
      | none =>
        [.send (.nonce (.observedLanding nonceId now)), .fetchAdd .nonceLocalComputeMiss 1]
  else []

def sendToObservedUs (att : TriggerAttempt) : Option ℕ :=
  match att.send, att.matched with
  | some s, some m => some (asMicrosU64 (Instant.saturatingDurationSince m.observedAt s.outcome.sendAt))
  | _, _ => none

def handleMatch (cfg : RecorderConfig) (st : State) (m : MatchEvent) (cache : SlotHashCache)
    (now : Instant) : State × List Output :=
  match st.sigToKey.lookup m.signature with
  | none => (st, [])
  | some key =>
    match st.attempts.lookup key with
    | none => ({ st with sigToKey := st.sigToKey.erase m.signature }, [])
    | some att =>
      let att := { att with matched := some m }
      let st := { st with attempts := st.attempts.insert key att }
      let r := conclude cfg .landed sendToObservedUs st key
      (r.1, nonceHook cfg att m cache now ++ r.2)

/-- Closing a list of attempts one by one as pending. -/
def concludePending (cfg : RecorderConfig) : EventMachine State Key Output where
  step := conclude cfg .unknownPending fun _ => none

/-- The hash maps are visited in an arbitrary order; here it is that of the list. -/
def sweepDeadlines (cfg : RecorderConfig) (st : State) (now : Instant) : State × List Output :=
  let expired := (st.attempts.entries.filter fun e => e.2.deadlineAt ≤ now).map Sigma.fst
  (concludePending cfg).run st expired

/-- The final flush after the loop. -/
def flush (cfg : RecorderConfig) (st : State) : State × List Output :=
  (concludePending cfg).run st st.attempts.keys

/-- A message of one of the three channels, or the deadline sweep. A match comes
with the slot hash cache as it is at that moment. -/
inductive Input
  | register (reg : RegisterEvent)
  | send (s : SendEvent)
  | matched (m : MatchEvent) (cache : SlotHashCache) (now : Instant)
  | sweep (now : Instant)

def machine (cfg : RecorderConfig) : EventMachine State Input Output where
  step st
    | .register reg =>
      (handleRegister cfg { st with agg := st.agg.recordRegister reg } reg,
        [.fetchAdd .registerEvents 1])
    | .send s =>
      let r := handleSend cfg { st with agg := st.agg.recordSend s } s
      (r.1, .fetchAdd .sendEvents 1 :: r.2)
    | .matched m cache now =>
      let r := handleMatch cfg st m cache now
      (r.1, .fetchAdd .matchEvents 1 :: r.2)
    | .sweep now => sweepDeadlines cfg st now

/-- A whole `run_loop`: the messages served until the stop flag is seen, and the flush. -/
def runLoop (cfg : RecorderConfig) (is : List Input) : State × List Output :=
  let r := (machine cfg).run {} is
  let f := flush cfg r.1
  (f.1, r.2 ++ f.2)

/-- The rows written, in order. -/
def records (os : List Output) : List TriggerRecord :=
  (Effect.sent os).filterMap fun
    | .record r => some r
    | .nonce _ => none

end SolanaBench.TickTrigger.Recorder
