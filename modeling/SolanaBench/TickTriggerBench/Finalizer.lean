import SolanaBench.EntrySources.Observation
import SolanaBench.Lib.AListRetain
import SolanaBench.Lib.EventMachine

/-! The finalizer of the tick trigger bench. It joins each send event with a match of its
signature, whichever comes first, and gives up on a send after a deadline. -/
namespace SolanaBench.TickTriggerBench

structure SendEvent where
  signature : Signature
  scheduleSlot : ℕ
  scheduleTick : ℕ
  triggerObservedAt : Instant
  sendAt : Instant
  responseAt : Instant
  error : Option String
  deriving DecidableEq, Repr

structure MatchEvent where
  signature : Signature
  observedAt : Instant
  observedSlot : ℕ
  observedEntryIndex : U32
  observedTickInSlot : Option ℕ
  observedCumulativeHashesInSlot : Option ℕ
  deriving DecidableEq, Repr

/-- `"OBSERVED"` and `"UNKNOWN_PENDING"`. -/
inductive Status
  | observed | unknownPending
  deriving DecidableEq, Repr

structure FinalRecord where
  send : SendEvent
  matchEvent : Option MatchEvent
  status : Status
  deriving DecidableEq, Repr

structure PendingRecord where
  send : SendEvent
  matchEvent : Option MatchEvent
  insertedAt : Instant
  deriving DecidableEq, Repr

/-- `pending_sigs.remove`, `fallback_queue.push` and `final_tx.try_send` with room. -/
inductive Output
  | forget (sig : Signature)
  | fallback (sig : Signature)
  | final (record : FinalRecord)
  deriving DecidableEq, Repr

def PendingRecord.finish (p : PendingRecord) (status : Status) : Output :=
  .final ⟨p.send, p.matchEvent, status⟩

/-- Once the match is there. -/
def PendingRecord.complete (sig : Signature) (p : PendingRecord) : List Output :=
  [.forget sig, p.finish .observed]

def emitFinal (sig : Signature) (p : PendingRecord) : List Output :=
  if p.matchEvent.isSome then [.forget sig, p.finish .observed]
  else [.forget sig, .fallback sig, p.finish .unknownPending]

structure Finalizer where
  map : AList (fun _ : Signature => PendingRecord) := ∅
  earlyMatches : AList (fun _ : Signature => MatchEvent) := ∅

namespace Finalizer

/-- `or_insert` keeps the record that is there already. -/
def onSend (s : Finalizer) (ev : SendEvent) (now : Instant) : Finalizer × List Output :=
  let sig := ev.signature
  let matchEvent := s.earlyMatches.lookup sig
  let earlyMatches := s.earlyMatches.erase sig
  let p := (s.map.lookup sig).getD ⟨ev, matchEvent, now⟩
  if matchEvent.isSome then (⟨s.map.erase sig, earlyMatches⟩, p.complete sig)
  else (⟨s.map.insert sig p, earlyMatches⟩, [])

def onMatch (s : Finalizer) (ev : MatchEvent) : Finalizer × List Output :=
  let sig := ev.signature
  match s.map.lookup sig with
  | some p =>
    ({ s with map := s.map.erase sig }, { p with matchEvent := some ev }.complete sig)
  | none => ({ s with earlyMatches := s.earlyMatches.insert sig ev }, [])

def stale (now : Instant) (deadline : Duration) (p : PendingRecord) : Bool :=
  decide (Instant.saturatingDurationSince now p.insertedAt > deadline)

def sweep (s : Finalizer) (now : Instant) (deadline : Duration) : Finalizer × List Output :=
  ({ s with map := s.map.retain fun _ p => !stale now deadline p },
    s.map.entries.flatMap fun e => if stale now deadline e.2 then emitFinal e.1 e.2 else [])

/-- The flush when the loop exits. -/
def drain (s : Finalizer) : List Output := s.map.entries.flatMap fun e => emitFinal e.1 e.2

end Finalizer

inductive Input
  | send (ev : SendEvent) (now : Instant)
  | matched (ev : MatchEvent)
  | sweep (now : Instant)
  deriving DecidableEq, Repr

def finalizer (deadline : Duration) : EventMachine Finalizer Input Output where
  step s
    | .send ev now => s.onSend ev now
    | .matched ev => s.onMatch ev
    | .sweep now => s.sweep now deadline

def finalizeLoop (deadline : Duration) (is : List Input) : List Output :=
  let r := (finalizer deadline).run {} is
  r.2 ++ r.1.drain

end SolanaBench.TickTriggerBench
