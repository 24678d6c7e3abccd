import Mathlib.Data.Finset.Erase
import Mathlib.Data.Finset.Insert
import SolanaBench.EntrySources.PohSlot
import SolanaBench.Lib.Effect
import SolanaBench.TickTriggerBench.Finalizer

/-! The observer of the tick trigger bench: after a first slot that it skips it numbers the ticks
of each slot, sends the pooled transaction of a scheduled one and looks for pending signatures. -/
namespace SolanaBench.TickTriggerBench

structure PreSignedTx where
  serialized : List UInt8
  signature : Signature
  blockhash : Hash
  builtAt : Instant
  deriving DecidableEq, Repr

structure TickEvent where
  observedAt : Instant
  slot : ℕ
  tickIdx : ℕ
  numHashes : ℕ
  deriving DecidableEq, Repr

structure SendCommand where
  tx : PreSignedTx
  scheduleSlot : ℕ
  scheduleTick : ℕ
  triggerObservedAt : Instant
  deriving DecidableEq, Repr

namespace Observer

def HASHES_PER_TICK : ℕ := 62_500

structure SlotState where
  tickIdx : ℕ := 0
  hashCount : ℕ := 0
  cumulativeHashesInSlot : ℕ := 0
  seenEntries : Finset Hash := ∅
  deriving DecidableEq

inductive Counter
  | scheduleContainsCalls | scheduleContainsTrue | poolEmpty | forkTickOverflow
  deriving DecidableEq, Repr

/-- What goes out on `tick_event_tx`, `send_queue` and `match_queue`. -/
inductive Event
  | tick (ev : TickEvent)
  | command (cmd : SendCommand)
  | matched (ev : MatchEvent)
  deriving DecidableEq, Repr

abbrev Output := Effect Counter Event

/-- The scheduled `(slot, tick)` pairs. -/
abbrev TickSchedule := Finset (ℕ × ℕ)

/-- The loop variables, and what the observer shares with other threads. -/
structure State where
  slotStates : AList (fun _ : ℕ => SlotState) := ∅
  firstSlotSeen : Option ℕ := none
  currentSlot : ℕ := 0
  pool : AList (fun _ : ℕ × ℕ => PreSignedTx) := ∅
  pendingSigs : Finset Signature := ∅

/-- The slot with the hashes of one more entry. -/
def SlotState.add (st : SlotState) (obs : EntryObservation) : SlotState :=
  { st with
    seenEntries := insert obs.entryHash st.seenEntries
    hashCount := satAddU64 st.hashCount obs.numHashes
    cumulativeHashesInSlot := satAddU64 st.cumulativeHashesInSlot obs.numHashes }

/-- What a new entry does to its slot, with the number of the tick that it is. -/
def SlotState.observe (st : SlotState) (obs : EntryObservation) : SlotState × Option ℕ :=
  let st := st.add obs
  if obs.txCount = 0 ∧ st.hashCount = HASHES_PER_TICK then
    ({ st with tickIdx := satAddU8 st.tickIdx 1, hashCount := 0 }, some (satAddU8 st.tickIdx 1))
  else (st, none)

/-- The state of a slot, a new one if there is none. -/
def State.slotState (s : State) (slot : ℕ) : SlotState := (s.slotStates.lookup slot).getD {}

/-- Beyond 4096 slots those more than 200 below the one that comes are dropped. -/
def prune (s : State) (slot : ℕ) : State :=
  if s.slotStates.entries.length > 4096 then
    { s with slotStates := s.slotStates.retain fun k _ => decide ((k + 200) % 2 ^ 64 ≥ slot) }
  else s

/-- The first slot is skipped: the bench may have subscribed in the middle of it. -/
def State.inWarmup (s : State) (slot : ℕ) : Bool := s.firstSlotSeen.all fun first => first = slot

/-- A scheduled tick takes its transaction out of the pool. -/
def fire (sched : TickSchedule) (s : State) (obs : EntryObservation) (tickVal : ℕ) :
    State × List Output :=
  if (obs.slot, tickVal) ∈ sched then
    match s.pool.lookup (obs.slot, tickVal) with
    | some tx =>
      ({ s with pool := s.pool.erase (obs.slot, tickVal) },
        [.fetchAdd .scheduleContainsTrue 1,
          .send (.command ⟨tx, obs.slot, tickVal, obs.observedAt⟩)])
    | none => (s, [.fetchAdd .scheduleContainsTrue 1, .fetchAdd .poolEmpty 1])
  else (s, [])

/-- A tick past the last one ends the iteration: `continue`. -/
def onTick (sched : TickSchedule) (s : State) (obs : EntryObservation) (tickVal : ℕ) :
    State × List Output × Bool :=
  let ev : Output := .send (.tick ⟨obs.observedAt, obs.slot, tickVal, obs.numHashes⟩)
  if tickVal > 64 then (s, [ev, .fetchAdd .forkTickOverflow 1], false)
  else
    let r := fire sched s obs tickVal
    (r.1, ev :: .fetchAdd .scheduleContainsCalls 1 :: r.2, true)

/-- Counting an entry outside the first slot; the flag says whether signatures are looked for. -/
def countEntry (sched : TickSchedule) (s : State) (obs : EntryObservation) :
    State × List Output × Bool :=
  let st := s.slotState obs.slot
  if obs.entryHash ∈ st.seenEntries then (s, [], true)
  else
    let r := st.observe obs
    let s := { s with slotStates := s.slotStates.insert obs.slot r.1 }
    match r.2 with
    | some tickVal => onTick sched s obs tickVal
    | none => (s, if obs.txCount = 0 then [.fetchAdd .forkTickOverflow 1] else [], true)

/-- The pending signatures among those of the entry; they stay pending. -/
def sigMatch (s : State) (obs : EntryObservation) : List Output :=
  (obs.signatures.filter fun sig => sig ∈ s.pendingSigs).map fun sig =>
    .send (.matched
      { signature := sig
        observedAt := obs.observedAt
        observedSlot := obs.slot
        observedEntryIndex := obs.entryIndex
        observedTickInSlot := (s.slotStates.lookup obs.slot).map SlotState.tickIdx
        observedCumulativeHashesInSlot :=
          (s.slotStates.lookup obs.slot).map SlotState.cumulativeHashesInSlot })

def processEntry (sched : TickSchedule) (s : State) (obs : EntryObservation) :
    State × List Output :=
  let s := { prune s obs.slot with
    currentSlot := obs.slot
    firstSlotSeen := some (s.firstSlotSeen.getD obs.slot) }
  if s.inWarmup obs.slot then (s, sigMatch s obs)
  else
    let r := countEntry sched s obs
    (r.1, r.2.1 ++ if r.2.2 then sigMatch r.1 obs else [])

/-- An entry, or another thread at the pool or the pending signatures. -/
inductive Input
  | entry (obs : EntryObservation)
  | poolInsert (key : ℕ × ℕ) (tx : PreSignedTx)
  | poolRemove (key : ℕ × ℕ)
  | pendingSig (sig : Signature)
  | forgetSig (sig : Signature)
  deriving DecidableEq, Repr

def machine (sched : TickSchedule) : EventMachine State Input Output where
  step s
    | .entry obs => processEntry sched s obs
    | .poolInsert key tx => ({ s with pool := s.pool.insert key tx }, [])
    | .poolRemove key => ({ s with pool := s.pool.erase key }, [])
    | .pendingSig sig => ({ s with pendingSigs := insert sig s.pendingSigs }, [])
    | .forgetSig sig => ({ s with pendingSigs := s.pendingSigs.erase sig }, [])

/-- The numbered ticks of a slot. -/
def numbered (slot : ℕ) (s : State) : Input → List (PohEntry × ℕ)
  | .entry obs =>
    let st := (prune s slot).slotState slot
    if obs.slot = slot ∧ s.inWarmup slot = false ∧ obs.entryHash ∉ st.seenEntries then
      (st.observe obs).2.toList.map fun n => (obs.pohEntry, n)
    else []
  | _ => []

end Observer
end SolanaBench.TickTriggerBench
