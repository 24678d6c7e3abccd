import Mathlib.Data.Finset.Erase
import Mathlib.Data.Finset.Filter
import Mathlib.Data.Finset.Insert
import SolanaBench.TickTrigger.LocalCompute
import SolanaBench.TickTrigger.PohSupervisor

/-! The trigger engine: consumes the ordered stream, fires scheduled ticks and
matches pending signatures. -/
namespace SolanaBench.TickTrigger.TriggerEngine

open LocalCompute PohSupervisor

abbrev TriggerId := ℕ

/-- `(slot << 8) | tick` in `u64`. -/
def TriggerId.fromSlotTick (slot tick : ℕ) : TriggerId := (slot <<< 8) % 2 ^ 64 ||| tick

structure TriggerEvent where
  triggerId : TriggerId
  slot : ℕ
  tick : ℕ
  triggerObservedAt : Instant
  tickUncertain : Bool
  deriving DecidableEq, Repr

structure MatchEvent where
  signature : Signature
  observedAt : Instant
  observedSlot : ℕ
  observedEntryIndex : U32
  observedTick : ℕ
  observedSource : SourceKind
  deriving DecidableEq, Repr

inductive Counter
  | entriesSeen | scheduleHits | scheduleDuplicateSuppressed | triggersWithUncertainTick
  | sigLookups | sigHits
  deriving DecidableEq, Repr

/-- What goes out on `trigger_tx` and `match_tx`. -/
inductive Event
  | trigger (t : TriggerEvent)
  | matched (m : MatchEvent)
  deriving DecidableEq, Repr

abbrev Output := Effect Counter Event

/-- The live schedule snapshot: scheduled `(slot, tick)` pairs. -/
abbrev Schedule := Finset (ℕ × ℕ)

/-- The loop variables, and the two shared structures the engine writes. -/
structure State where
  fired : Finset (ℕ × ℕ) := ∅
  lastCompactSlot : ℕ := 0
  pendingSigs : Finset Signature := ∅
  nonceSlotHashCache : Option SlotHashCache := none

def recordHash (st : State) (slot : ℕ) (h : Hash) : State :=
  { st with nonceSlotHashCache := st.nonceSlotHashCache.map fun c => c.recordEntry slot h }

def triggerEvent (e : OrderedEntry) (now : Instant) : TriggerEvent where
  triggerId := TriggerId.fromSlotTick e.slot e.tickIdxInSlot
  slot := e.slot
  tick := e.tickIdxInSlot
  triggerObservedAt := now
  tickUncertain := e.tickUncertain

/-- The counters and the send of a schedule hit. -/
def fire (e : OrderedEntry) (now : Instant) : List Output :=
  let uncertain : List Output :=
    if e.tickUncertain then [.fetchAdd .triggersWithUncertainTick 1] else []
  .fetchAdd .scheduleHits 1 :: uncertain ++ [.send (.trigger (triggerEvent e now))]

def scheduleCheck (sched : Schedule) (st : State) (e : OrderedEntry) (now : Instant) :
    State × List Output :=
  let key := (e.slot, e.tickIdxInSlot)
  if e.tickIdxInSlot > 0 ∧ key ∈ sched then
    if key ∉ st.fired then
      ({ st with fired := insert key st.fired }, fire e now)
    else (st, [.fetchAdd .scheduleDuplicateSuppressed 1])
  else (st, [])

/-- `for sig in e.observation.signatures`. -/
def sigMatch (e : OrderedEntry) (now : Instant) :
    List Signature → Finset Signature → Finset Signature × List Output
  | [], pending => (pending, [])
  | sig :: sigs, pending =>
    if sig ∈ pending then
      let r := sigMatch e now sigs (pending.erase sig)
      (r.1, .fetchAdd .sigLookups 1 :: .fetchAdd .sigHits 1 ::
        .send (.matched ⟨sig, now, e.slot, e.entryIndex, e.tickIdxInSlot, e.observation.source⟩) ::
          r.2)
    else
      let r := sigMatch e now sigs pending
      (r.1, .fetchAdd .sigLookups 1 :: r.2)

/-- The periodic compaction runs when the slot is over `last_compact_slot + 256`. -/
def compacts (lastCompactSlot slot : ℕ) : Bool := decide (slot > (lastCompactSlot + 256) % 2 ^ 64)

def compact (st : State) (slot : ℕ) : State :=
  if compacts st.lastCompactSlot slot then
    { st with
      lastCompactSlot := slot
      fired := st.fired.filter fun key => key.1 ≥ slot - 256 }
  else st

def handleEntry (sched : Schedule) (st : State) (e : OrderedEntry) (now : Instant) :
    State × List Output :=
  let st := recordHash st e.slot e.observation.entryHash
  let r := scheduleCheck sched st e now
  let m := sigMatch e now e.observation.signatures r.1.pendingSigs
  (compact { r.1 with pendingSigs := m.1 } e.slot, .fetchAdd .entriesSeen 1 :: r.2 ++ m.2)

/-- One iteration of `run_loop` on a received event, with the schedule loaded at that point. -/
def handleEvent (sched : Schedule) (st : State) (event : OrderedEvent) (now : Instant) :
    State × List Output :=
  match event with
  | .entry e => handleEntry sched st e now
  | .missing _ => (st, [])
  | .slotComplete c => (recordHash st c.slot c.lastEntryHash, [])
  | .slotIncomplete c => (recordHash st c.slot c.lastEntryHash, [])

/-- Besides the ordered stream, the dispatcher registers signatures it waits for. -/
inductive Input
  | ordered (event : OrderedEvent) (now : Instant)
  | register (sig : Signature)

/-- The engine under a fixed schedule. -/
def machine (sched : Schedule) : EventMachine State Input Output where
  step st
    | .ordered event now => handleEvent sched st event now
    | .register sig => ({ st with pendingSigs := insert sig st.pendingSigs }, [])

end SolanaBench.TickTrigger.TriggerEngine
