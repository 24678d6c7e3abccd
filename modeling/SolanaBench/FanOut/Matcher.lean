import Mathlib.Data.Finset.Insert
import Mathlib.Data.List.AList
import SolanaBench.FanOut.SlotHashCache
import SolanaBench.Lib.Effect
import SolanaBench.Nonce.Manager

/-! The matcher: one attempt per `(trigger_id, sender_id)`. A match resolves all siblings
of its trigger, a deadline closes an attempt as pending, and a trigger without a match
gives its nonce back after a while. -/
namespace SolanaBench.FanOut

open Nonce

/-- The first 16 bytes of a SHA-256 hash of slot, tick and nonce id. -/
abbrev TriggerId := ℕ

namespace Matcher

inductive RateLimitState
  | ok | throttled429 | circuitOpen | timeout
  deriving DecidableEq, Repr

inductive TentativeOutcome
  | landedTentative | dedupedTentative | unknownPending | trulyMissing | sendError
  deriving DecidableEq, Repr

inductive ObservedSource
  | ss | ys | both
  deriving DecidableEq, Repr

structure SendEvent where
  triggerId : TriggerId
  senderId : ℕ
  sendAt : Instant
  sendAckAt : Option Instant
  signature : Signature
  providerRequestId : Option String
  httpStatus : Option ℕ
  rpcErrCode : Option ℤ
  rpcErrMessage : Option String
  rateLimitState : RateLimitState
  error : Option String
  deriving DecidableEq, Repr

structure RegisterEvent where
  triggerId : TriggerId
  senderId : ℕ
  senderName : String
  endpointUrl : String
  protocol : String
  authTier : Option String
  tipAccountUsed : Option Pubkey
  tipLamports : ℕ
  priorityFeeMicrolamports : ℕ
  computeUnitLimit : ℕ
  signature : Signature
  txMessageHash : Hash
  sendOrderInTrigger : ℕ
  triggerSlot : ℕ
  triggerTick : ℕ
  nonceAccountId : NonceId
  nonceBlockhashUsed : Hash
  preparedAt : Instant
  poolReadyAt : Instant
  triggerObservedAt : Instant
  deriving DecidableEq, Repr

structure MatchEvent where
  signature : Signature
  observedAt : Instant
  observedSlot : ℕ
  observedEntryIndex : U32
  observedTickInSlot : Option ℕ
  observedCumulativeHashesInSlot : Option ℕ
  observedSource : SourceKind
  deriving DecidableEq, Repr

/-- The states the matcher gives an attempt; the terminal ones are never built. -/
inductive AttemptState
  | sentPending (sendAtNs : ℕ) (sig : Signature)
  | sentAcked (sendAtNs sendAckAtNs : ℕ) (sig : Signature) (providerRequestId : Option String)
  | sendFailed (sendAtNs : ℕ) (sendAckAtNs : Option ℕ) (error : String) (sig : Signature)
  deriving DecidableEq, Repr

structure AttemptRecord where
  reg : RegisterEvent
  state : AttemptState
  matchInfo : Option MatchEvent
  deriving DecidableEq, Repr

/-- A row of the final table, less the columns that are always empty here. -/
structure FinalRecord where
  triggerSlot : ℕ
  triggerTick : ℕ
  triggerId : TriggerId
  nonceAccountId : NonceId
  nonceBlockhashUsed : Hash
  senderId : ℕ
  senderName : String
  txSignature : Signature
  txMessageHash : Hash
  endpointUrl : String
  protocol : String
  authTier : Option String
  tipAccountUsed : Option Pubkey
  tipLamports : ℕ
  priorityFeeMicrolamports : ℕ
  computeUnitLimit : ℕ
  preparedAtNs : ℕ
  poolReadyAtNs : ℕ
  triggerObservedAtNs : ℕ
  sendAtNs : ℕ
  sendAckAtNs : Option ℕ
  sendOrderInTrigger : ℕ
  sendError : Option String := none
  rpcErrCode : Option ℤ := none
  rpcErrMessage : Option String := none
  providerRequestId : Option String := none
  httpStatus : Option ℕ := none
  rateLimitState : RateLimitState := .ok
  observedSlot : Option ℕ := none
  observedEntryIndex : Option U32 := none
  observedTickInSlot : Option ℕ := none
  observedCumulativeHashesInSlot : Option ℕ := none
  observedAtNs : Option ℕ := none
  observedSource : Option ObservedSource := none
  tentativeOutcome : TentativeOutcome
  siblingsResolvedAtNs : Option ℕ := none
  wallTriggerToSendNs : Option ℤ := none
  wallSendRttNs : Option ℤ := none
  runId : String
  deriving DecidableEq, Repr

structure FinalityQueueEntry where
  triggerId : TriggerId
  senderId : ℕ
  signature : Signature
  queuedAt : Instant
  deriving DecidableEq, Repr

abbrev Key := TriggerId × ℕ

def RegisterEvent.key (r : RegisterEvent) : Key := (r.triggerId, r.senderId)
def SendEvent.key (s : SendEvent) : Key := (s.triggerId, s.senderId)

inductive Counter
  | nonceAdvanceObserved | nonceRestoredUnmatched
  deriving DecidableEq, Repr

/-- Rows, entries for the finality tracker, and calls into the nonce manager. -/
inductive Event
  | final (r : FinalRecord)
  | finality (e : FinalityQueueEntry)
  | nonce (a : NonceManager.Action)
  deriving DecidableEq, Repr

abbrev Output := Effect Counter Event

structure MatcherConfig where
  deadline : Duration
  runId : String
  anchor : Instant
  /-- Whether `finality_tx` is there, and the nonce manager with the slot hash cache. -/
  finality : Bool
  nonceMode : Bool
  nonceRestoreAfter : Duration
  sha : Sha256

structure State where
  attempts : AList (fun _ : Key => AttemptRecord) := ∅
  sigToKey : AList (fun _ : Signature => Key) := ∅
  restoredTriggers : Finset TriggerId := ∅

/-! ## Rows -/

def nsSince (cfg : MatcherConfig) (t : Instant) : ℕ :=
  min (Instant.saturatingDurationSince t cfg.anchor) U64.MAX

/-- `as i64`. -/
def asI64 (n : ℕ) : ℤ :=
  let m : ℕ := n % 2 ^ 64
  if m < 2 ^ 63 then (m : ℤ) else (m : ℤ) - 2 ^ 64

/-- What both row builders copy from the registration. -/
def baseRecord (cfg : MatcherConfig) (reg : RegisterEvent) (sendAtNs : ℕ)
    (sendAckAtNs : Option ℕ) (outcome : TentativeOutcome) : FinalRecord where
  triggerSlot := reg.triggerSlot
  triggerTick := reg.triggerTick
  triggerId := reg.triggerId
  nonceAccountId := reg.nonceAccountId
  nonceBlockhashUsed := reg.nonceBlockhashUsed
  senderId := reg.senderId
  senderName := reg.senderName
  txSignature := reg.signature
  txMessageHash := reg.txMessageHash
  endpointUrl := reg.endpointUrl
  protocol := reg.protocol
  authTier := reg.authTier
  tipAccountUsed := reg.tipAccountUsed
  tipLamports := reg.tipLamports
  priorityFeeMicrolamports := reg.priorityFeeMicrolamports
  computeUnitLimit := reg.computeUnitLimit
  preparedAtNs := nsSince cfg reg.preparedAt
  poolReadyAtNs := nsSince cfg reg.poolReadyAt
  triggerObservedAtNs := nsSince cfg reg.triggerObservedAt
  sendAtNs := sendAtNs
  sendAckAtNs := sendAckAtNs
  sendOrderInTrigger := reg.sendOrderInTrigger
  tentativeOutcome := outcome
  runId := cfg.runId

def buildRecordFromAttempt (cfg : MatcherConfig) (rec : AttemptRecord) (ev : SendEvent)
    (outcome : TentativeOutcome) : FinalRecord :=
  { baseRecord cfg rec.reg (nsSince cfg ev.sendAt) (ev.sendAckAt.map (nsSince cfg)) outcome with
    sendError := ev.error
    rpcErrCode := ev.rpcErrCode
    rpcErrMessage := ev.rpcErrMessage
    providerRequestId := ev.providerRequestId
    httpStatus := ev.httpStatus
    rateLimitState := ev.rateLimitState
    wallTriggerToSendNs :=
      some (asI64 (nsSince cfg ev.sendAt) - asI64 (nsSince cfg rec.reg.triggerObservedAt))
    wallSendRttNs :=
      ev.sendAckAt.map fun t => asI64 (Instant.saturatingDurationSince t ev.sendAt) }

def observedSource : SourceKind → ObservedSource
  | .shredStream => .ss
  | .yellowstone => .ys

def buildRecordFromRecord (cfg : MatcherConfig) (rec : AttemptRecord) (outcome : TentativeOutcome)
    (siblingsResolvedAt : Option Instant) : FinalRecord :=
  let base :=
    match rec.state with
    | .sentAcked sendAtNs sendAckAtNs _ providerRequestId =>
      { baseRecord cfg rec.reg sendAtNs (some sendAckAtNs) outcome with
        providerRequestId := providerRequestId }
    | .sentPending sendAtNs _ => baseRecord cfg rec.reg sendAtNs none outcome
    | .sendFailed sendAtNs sendAckAtNs error _ =>
      { baseRecord cfg rec.reg sendAtNs sendAckAtNs outcome with sendError := some error }
  { base with
    observedSlot := rec.matchInfo.map MatchEvent.observedSlot
    observedEntryIndex := rec.matchInfo.map MatchEvent.observedEntryIndex
    observedTickInSlot := rec.matchInfo.bind MatchEvent.observedTickInSlot
    observedCumulativeHashesInSlot := rec.matchInfo.bind MatchEvent.observedCumulativeHashesInSlot
    observedAtNs := rec.matchInfo.map fun m => nsSince cfg m.observedAt
    observedSource := rec.matchInfo.map fun m => observedSource m.observedSource
    siblingsResolvedAtNs := siblingsResolvedAt.map (nsSince cfg) }

/-- The row, and the entry for the finality tracker where there is one. -/
def emit (cfg : MatcherConfig) (reg : RegisterEvent) (record : FinalRecord) (now : Instant) :
    List Output :=
  .send (.final record) ::
    if cfg.finality then [.send (.finality ⟨reg.triggerId, reg.senderId, reg.signature, now⟩)]
    else []

/-! ## The handlers -/

def registerAttempt (st : State) (reg : RegisterEvent) : State :=
  { st with
    sigToKey := st.sigToKey.insert reg.signature reg.key
    attempts := st.attempts.insert reg.key ⟨reg, .sentPending 0 reg.signature, none⟩ }

def handleSendEvent (cfg : MatcherConfig) (st : State) (ev : SendEvent) : State × List Output :=
  match st.attempts.lookup ev.key with
  | none => (st, [])
  | some rec =>
    let sendAtNs := nsSince cfg ev.sendAt
    let sendAckAtNs := ev.sendAckAt.map (nsSince cfg)
    match ev.error with
    | some err =>
      let failed := { rec with state := .sendFailed sendAtNs sendAckAtNs err ev.signature }
      ({ st with
          sigToKey := st.sigToKey.erase rec.reg.signature
          attempts := st.attempts.erase ev.key },
        [.send (.final (buildRecordFromAttempt cfg failed ev .sendError))])
    | none =>
      let state := .sentAcked sendAtNs (sendAckAtNs.getD 0) ev.signature ev.providerRequestId
      ({ st with attempts := st.attempts.insert ev.key { rec with state := state } }, [])

/-- The siblings of a trigger, in the order of the map. -/
def siblingKeys (st : State) (triggerId : TriggerId) : List Key :=
  st.attempts.keys.filter fun key => key.1 = triggerId

/-- The next nonce from the cache, pushed for the winner's nonce account. -/
def nonceHook (cfg : MatcherConfig) (st : State) (winner : Key) (ev : MatchEvent)
    (cache : SlotHashCache) : List Output :=
  if cfg.nonceMode then
    match st.attempts.lookup winner with
    | none => []
    | some rec =>
      match cache.lookupRecentBlockhash cfg.sha ev.observedSlot 5 with
      | some r =>
        [.send (.nonce (.landingWithBlockhash rec.reg.nonceAccountId
          (cfg.sha.computeNextDurableNonce r.hash))), .fetchAdd .nonceAdvanceObserved 1]
      | none => []
  else []

def resolveSibling (cfg : MatcherConfig) (st : State) (winner : Key) (ev : MatchEvent)
    (now : Instant) (key : Key) : List Output :=
  match st.attempts.lookup key with
  | none => []
  | some rec =>
    let outcome := if key = winner then .landedTentative else .dedupedTentative
    emit cfg rec.reg
      (buildRecordFromRecord cfg { rec with matchInfo := some ev } outcome (some ev.observedAt)) now

/-- `sig_to_key` keeps the signatures of the siblings that are removed. -/
def handleMatchEvent (cfg : MatcherConfig) (st : State) (ev : MatchEvent) (cache : SlotHashCache)
    (now : Instant) : State × List Output :=
  match st.sigToKey.lookup ev.signature with
  | none => (st, [])
  | some winner =>
    let siblings := siblingKeys st winner.1
    ({ st with attempts := siblings.foldl (fun m key => m.erase key) st.attempts },
      nonceHook cfg st winner ev cache ++ siblings.flatMap (resolveSibling cfg st winner ev now))

/-- Remove an attempt and write it as pending, in a sweep or in the final flush. -/
def closePending (cfg : MatcherConfig) (now : Instant) (st : State) (key : Key) :
    State × List Output :=
  match st.attempts.lookup key with
  | none => (st, [])
  | some rec =>
    ({ st with
        attempts := st.attempts.erase key
        sigToKey := st.sigToKey.erase rec.reg.signature },
      emit cfg rec.reg (buildRecordFromRecord cfg rec .unknownPending none) now)

def closingMachine (cfg : MatcherConfig) (now : Instant) : EventMachine State Key Output where
  step := closePending cfg now

def sweepDeadlines (cfg : MatcherConfig) (st : State) (now : Instant) : State × List Output :=
  let expired := st.attempts.entries.filter fun e =>
    Instant.saturatingDurationSince now e.2.reg.triggerObservedAt ≥ cfg.deadline
  (closingMachine cfg now).run st (expired.map Sigma.fst)

/-- The shutdown flush after the loop. -/
def flush (cfg : MatcherConfig) (st : State) (now : Instant) : State × List Output :=
  (closingMachine cfg now).run st st.attempts.keys

/-! ## Giving nonces back -/

/-- A trigger in `per_trigger`: the oldest registration, the nonce of the first attempt
met, and whether any attempt has a match. -/
structure TriggerGroup where
  oldest : Instant
  nonceId : NonceId
  matched : Bool
  deriving DecidableEq, Repr

abbrev Groups := AList fun _ : TriggerId => TriggerGroup

def addAttempt (groups : Groups) (tid : TriggerId) (rec : AttemptRecord) : Groups :=
  match groups.lookup tid with
  | some g => groups.insert tid
      { g with
        oldest := min g.oldest rec.reg.triggerObservedAt
        matched := g.matched || rec.matchInfo.isSome }
  | none => groups.insert tid
      ⟨rec.reg.triggerObservedAt, rec.reg.nonceAccountId, rec.matchInfo.isSome⟩

def perTrigger (st : State) : Groups :=
  st.attempts.entries.foldl (fun groups e => addAttempt groups e.1.1 e.2) ∅

/-- The trigger is passed over by the second loop of `sweep_unmatched_nonces`. -/
def skipped (cfg : MatcherConfig) (st : State) (now : Instant) (tid : TriggerId)
    (g : TriggerGroup) : Bool :=
  g.matched || decide (tid ∈ st.restoredTriggers) ||
    decide (Instant.saturatingDurationSince now g.oldest < cfg.nonceRestoreAfter)

def markRestored (st : State) (tid : TriggerId) : State :=
  { st with restoredTriggers := insert tid st.restoredTriggers }

end Matcher
end SolanaBench.FanOut
