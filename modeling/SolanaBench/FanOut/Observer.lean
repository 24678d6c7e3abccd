import Mathlib.Data.Finset.Erase
import SolanaBench.EntrySources.PohSlot
import SolanaBench.FanOut.Dispatcher
import SolanaBench.Lib.AListRetain
import SolanaBench.Lib.EventMachine

/-! The observer of the fan-out bench: it adds up the hashes of each slot, numbers the ticks,
fires the scheduled ones and looks for pending signatures. Log output is left out. -/
namespace SolanaBench.FanOut

structure MergedEntry where
  observation : EntryObservation
  firstSeenSource : SourceKind
  deriving DecidableEq, Repr

namespace Observer

structure SlotState where
  tickIdx : ℕ := 0
  hashCountSinceLastTick : ℕ := 0
  cumulativeHashesInSlot : ℕ := 0
  seenEntries : Finset Hash := ∅
  firedTicks : Finset ℕ := ∅
  deriving DecidableEq

inductive Counter
  | scheduleContainsCalls | scheduleContainsTrue | forkTickOverflow
  deriving DecidableEq, Repr

/-- What goes out on `trigger_tx` and `match_tx`. -/
inductive Event
  | trigger (ev : TriggerEvent)
  | matched (ev : Matcher.MatchEvent)
  deriving DecidableEq, Repr

abbrev Output := Effect Counter Event

/-- The scheduled `(slot, tick)` pairs. -/
abbrev TickSchedule := Finset (ℕ × ℕ)

/-- The loop variables, and what the observer shares with other threads. -/
structure State where
  slotStates : AList (fun _ : ℕ => SlotState) := ∅
  lastEviction : Instant
  currentSlot : ℕ
  pendingSigs : Finset Signature := ∅
  slotHashCache : Option SlotHashCache := none

/-- The slot with the hashes of one more entry. -/
def SlotState.add (st : SlotState) (obs : EntryObservation) : SlotState :=
  { st with
    seenEntries := insert obs.entryHash st.seenEntries
    cumulativeHashesInSlot := satAddU64 st.cumulativeHashesInSlot obs.numHashes
    hashCountSinceLastTick := satAddU64 st.hashCountSinceLastTick obs.numHashes }

def SlotState.isTick (st : SlotState) (obs : EntryObservation) : Bool :=
  obs.txCount == 0 && decide (st.hashCountSinceLastTick = HASHES_PER_TICK)

/-- A scheduled tick fires once. -/
def SlotState.fire (st : SlotState) (sched : TickSchedule) (slot tickNow : ℕ) (now : Instant) :
    SlotState × List Output :=
  if (slot, tickNow) ∈ sched ∧ tickNow ∉ st.firedTicks then
    ({ st with firedTicks := insert tickNow st.firedTicks },
      [.fetchAdd .scheduleContainsTrue 1,
        .send (.trigger ⟨slot, tickNow, st.cumulativeHashesInSlot, now⟩)])
  else (st, [])

/-- What a new entry does to its slot, with the number of the tick that it is. -/
def SlotState.observe (st : SlotState) (sched : TickSchedule) (obs : EntryObservation)
    (now : Instant) : SlotState × Option ℕ × List Output :=
  let st := st.add obs
  if st.isTick obs then
    if st.tickIdx < TICKS_PER_SLOT then
      let tickNow := satAddU8 st.tickIdx 1
      let r := { st with tickIdx := tickNow, hashCountSinceLastTick := 0 }.fire sched obs.slot
        tickNow now
      (r.1, some tickNow, .fetchAdd .scheduleContainsCalls 1 :: r.2)
    else (st, none, [.fetchAdd .forkTickOverflow 1])
  else (st, none, [])

/-- `for sig in obs.signatures`. -/
def sigMatch (m : MergedEntry) (st : SlotState) (now : Instant) :
    List Signature → Finset Signature → Finset Signature × List Output
  | [], pending => (pending, [])
  | sig :: sigs, pending =>
    if sig ∈ pending then
      let r := sigMatch m st now sigs (pending.erase sig)
      (r.1, .send (.matched
        { signature := sig
          observedAt := now
          observedSlot := m.observation.slot
          observedEntryIndex := m.observation.entryIndex
          observedTickInSlot := if st.tickIdx > 0 then some st.tickIdx else none
          observedCumulativeHashesInSlot := some st.cumulativeHashesInSlot
          observedSource := m.firstSeenSource }) :: r.2)
    else sigMatch m st now sigs pending

/-- The state of a slot, a new one if there is none. -/
def State.slotState (s : State) (slot : ℕ) : SlotState := (s.slotStates.lookup slot).getD {}

/-- An entry whose hash was seen before is passed over. -/
def processEntry (sched : TickSchedule) (s : State) (m : MergedEntry) (now : Instant) :
    State × List Output :=
  let obs := m.observation
  let st := s.slotState obs.slot
  if obs.entryHash ∈ st.seenEntries then (s, [])
  else
    let r := st.observe sched obs now
    let matched := sigMatch m r.1 now obs.signatures s.pendingSigs
    ({ s with
        slotStates := s.slotStates.insert obs.slot r.1
        slotHashCache := s.slotHashCache.map fun c =>
          c.update obs.slot obs.entryIndex obs.entryHash r.2.1
        pendingSigs := matched.1 },
      r.2.2 ++ matched.2)

def advance (s : State) (slot : ℕ) : State :=
  if slot > s.currentSlot then { s with currentSlot := slot } else s

/-- Every half a second the slots more than 64 below the highest one are dropped. -/
def maybeEvictOldSlots (s : State) (now : Instant) : State :=
  if now.saturatingDurationSince s.lastEviction < 500_000_000 then s
  else
    { s with
      lastEviction := now
      slotStates :=
        if s.currentSlot > 64 then s.slotStates.retain fun slot _ => decide (slot ≥ s.currentSlot - 64)
        else s.slotStates }

/-- An entry, a receive that timed out, or another thread adding a signature to look for. -/
inductive Input
  | entry (m : MergedEntry) (now : Instant)
  | timeout (now : Instant)
  | pendingSig (sig : Signature)
  deriving DecidableEq, Repr

/-- The observer under a fixed schedule. -/
def machine (sched : TickSchedule) : EventMachine State Input Output where
  step s
    | .entry m now =>
      let r := processEntry sched s m now
      (maybeEvictOldSlots (advance r.1 m.observation.slot) now, r.2)
    | .timeout now => (maybeEvictOldSlots s now, [])
    | .pendingSig sig => ({ s with pendingSigs := insert sig s.pendingSigs }, [])

/-- The numbered ticks of a slot: the entry, the number, and the hashes of the slot so far. -/
def numbered (sched : TickSchedule) (slot : ℕ) (s : State) : Input → List (PohEntry × ℕ × ℕ)
  | .entry m now =>
    let obs := m.observation
    let st := s.slotState slot
    if obs.slot = slot ∧ obs.entryHash ∉ st.seenEntries then
      let r := st.observe sched obs now
      r.2.1.toList.map fun n => (obs.pohEntry, n, r.1.cumulativeHashesInSlot)
    else []
  | .timeout _ => []
  | .pendingSig _ => []

end Observer
end SolanaBench.FanOut
