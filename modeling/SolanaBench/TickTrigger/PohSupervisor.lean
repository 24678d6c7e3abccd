import Mathlib.Algebra.Group.Fin.Basic
import Mathlib.Order.Fin.Basic
import SolanaBench.Lib.WhileLoop
import SolanaBench.TickTrigger.Merger

/-! The PoH supervisor: reorders the merged stream into strict PoH order per
slot, fills gaps with `Missing` after a timeout and seals slots that lag. -/
namespace SolanaBench.TickTrigger.PohSupervisor

def TICKS_PER_SLOT : ℕ := 64

structure OrderedEntry where
  slot : ℕ
  entryIndex : U32
  tickIdxInSlot : ℕ
  cumulativeHashesInSlot : ℕ
  observation : EntryObservation
  wasReordered : Bool
  waitDurationUs : ℕ
  tickUncertain : Bool
  deriving DecidableEq, Repr

structure OrderedMissing where
  slot : ℕ
  entryIndex : U32
  waitedForUs : ℕ
  deriving DecidableEq, Repr

structure OrderedSlotComplete where
  slot : ℕ
  totalEntries : ℕ
  lastEntryHash : Hash
  lastTickObserved : ℕ
  missingCount : ℕ
  deriving DecidableEq, Repr

structure OrderedSlotIncomplete where
  slot : ℕ
  lastSeenIndex : U32
  lastEntryHash : Hash
  lastTickObserved : ℕ
  missingCount : ℕ
  deriving DecidableEq, Repr

inductive OrderedEvent
  | entry (e : OrderedEntry)
  | missing (m : OrderedMissing)
  | slotComplete (c : OrderedSlotComplete)
  | slotIncomplete (c : OrderedSlotIncomplete)
  deriving DecidableEq, Repr

inductive Counter
  | entriesEmittedImmediate | entriesEmittedReordered | entriesMissingTimeout
  | slotsComplete | slotsIncomplete | slotsWithMissing
  | reorderWaitSumUs | reorderWaitMaxUs | pendingPeakSize | pendingDropsCapacity
  | duplicatesDropped | lateArrivalsAfterSeal
  deriving DecidableEq, Repr

abbrev Output := Effect Counter OrderedEvent

structure PendingEntry where
  merged : MergedEntry
  bufferedAt : Instant
  deriving DecidableEq, Repr

/-- The reordering state of one slot; the defaults are those of `PohSlot::default()`. -/
structure PohSlot where
  nextExpectedIdx : U32 := 0
  pending : SortedMap U32 PendingEntry := ∅
  cumulativeHashes : ℕ := 0
  hashesSinceLastTick : ℕ := 0
  tickIdx : ℕ := 0
  lastEntryHash : Option Hash := none
  lastEntryIndex : U32 := 0
  hasMissing : Bool := false
  missingCount : ℕ := 0
  totalEmitted : ℕ := 0
  lastEmitAt : Option Instant := none
  sealed : Bool := false

structure Config where
  entryTimeout : Duration
  slotSealLagSlots : ℕ
  maxPendingPerSlot : ℕ

/-! ## Emitting -/

/-- The lenient tick test: an entry without transactions, while ticks are left. -/
def countsTick (s : PohSlot) (obs : EntryObservation) : Bool :=
  obs.txCount == 0 && decide (s.tickIdx < TICKS_PER_SLOT)

/-- `tick_idx` once `obs` was counted. -/
def tickAfter (s : PohSlot) (obs : EntryObservation) : ℕ :=
  if countsTick s obs then satAddU8 s.tickIdx 1 else s.tickIdx

/-- The updates of the slot state that precede the send in `emit_entry`. -/
def trackEntry (s : PohSlot) (obs : EntryObservation) (now : Instant) : PohSlot :=
  { s with
    cumulativeHashes := satAddU64 s.cumulativeHashes obs.numHashes
    hashesSinceLastTick :=
      if countsTick s obs then 0 else satAddU64 s.hashesSinceLastTick obs.numHashes
    tickIdx := tickAfter s obs
    lastEntryHash := some obs.entryHash
    lastEntryIndex := obs.entryIndex
    lastEmitAt := some now
    totalEmitted := satAddU32 s.totalEmitted 1 }

def entryEvent (s : PohSlot) (obs : EntryObservation) (wasReordered : Bool) (waitUs : ℕ) :
    OrderedEntry where
  slot := obs.slot
  entryIndex := obs.entryIndex
  tickIdxInSlot := s.tickIdx
  cumulativeHashesInSlot := s.cumulativeHashes
  observation := obs
  wasReordered := wasReordered
  waitDurationUs := waitUs
  tickUncertain := s.hasMissing

def emitEntry (s : PohSlot) (merged : MergedEntry) (now : Instant) (wasReordered : Bool)
    (waitUs : ℕ) : PohSlot × List Output :=
  let obs := merged.observation
  let s := trackEntry s obs now
  let counters : List Output :=
    if wasReordered then
      [.fetchAdd .entriesEmittedReordered 1, .fetchAdd .reorderWaitSumUs waitUs,
        .fetchMax .reorderWaitMaxUs waitUs]
    else [.fetchAdd .entriesEmittedImmediate 1]
  (s, counters ++ [.send (.entry (entryEvent s obs wasReordered waitUs))])

/-- `emit_entry(..)` followed by `next_expected_idx += 1`, as every caller has it. -/
def emitNext (s : PohSlot) (merged : MergedEntry) (now : Instant) (wasReordered : Bool)
    (waitUs : ℕ) : PohSlot × List Output :=
  let r := emitEntry s merged now wasReordered waitUs
  ({ r.1 with nextExpectedIdx := r.1.nextExpectedIdx + 1 }, r.2)

def waitUs (p : PendingEntry) (now : Instant) : ℕ :=
  (now.saturatingDurationSince p.bufferedAt).asMicrosU32

/-- The block the three draining loops share: pop the first pending entry and emit it. -/
def emitPending (s : PohSlot) (p : PendingEntry) (now : Instant) : PohSlot × List Output :=
  emitNext { s with pending := s.pending.popFirst } p.merged now true (waitUs p now)

def emitMissing (cfg : Config) (s : PohSlot) (slot : ℕ) (now : Instant) : PohSlot × List Output :=
  let waitedForUs :=
    match s.pending.firstKeyValue with
    | some e => waitUs e.2 now
    | none => cfg.entryTimeout.asMicrosU32
  ({ s with
      missingCount := satAddU32 s.missingCount 1
      hasMissing := true
      nextExpectedIdx := s.nextExpectedIdx + 1 },
    [.fetchAdd .entriesMissingTimeout 1, .send (.missing ⟨slot, s.nextExpectedIdx, waitedForUs⟩)])

/-! ## The three draining loops -/

/-- How far a slot is from an empty buffer: one pop outweighs any number of gaps. -/
def backlog (s : PohSlot) : ℕ :=
  match s.pending.firstKeyValue with
  | none => 0
  | some e => s.pending.size * 2 ^ 32 + (e.1 - s.nextExpectedIdx).val

theorem backlog_emitPending {s t : PohSlot} {e : U32 × PendingEntry} {now : Instant}
    {es : List Output} (h : s.pending.firstKeyValue = some e)
    (ht : emitPending s e.2 now = (t, es)) : backlog t < backlog s := by
  have hsize := SortedMap.size_popFirst h
  have hp : t.pending = s.pending.popFirst := (congrArg (fun r => r.1.pending) ht).symm
  unfold backlog
  rw [h, hp]
  cases hn : s.pending.popFirst.firstKeyValue with
  | none =>
    have hpos : 0 < s.pending.size * 2 ^ 32 := by omega
    exact Nat.add_pos_left hpos _
  | some e' =>
    have hlt := (e'.1 - t.nextExpectedIdx).isLt
    simp only
    omega

theorem backlog_emitMissing {cfg : Config} {s t : PohSlot} {e : U32 × PendingEntry} {slot : ℕ}
    {now : Instant} {es : List Output} (h : s.pending.firstKeyValue = some e)
    (hne : e.1 ≠ s.nextExpectedIdx) (ht : emitMissing cfg s slot now = (t, es)) :
    backlog t < backlog s := by
  have hsub : e.1 - s.nextExpectedIdx ≠ 0 := sub_ne_zero.mpr hne
  have hp : t.pending = s.pending := (congrArg (fun r => r.1.pending) ht).symm
  have ht' : t.nextExpectedIdx = s.nextExpectedIdx + 1 :=
    (congrArg (fun r => r.1.nextExpectedIdx) ht).symm
  have hn : e.1 - t.nextExpectedIdx = e.1 - s.nextExpectedIdx - 1 := by
    rw [ht']
    exact sub_add_eq_sub_sub _ _ _
  have hval := Fin.val_sub_one_of_ne_zero hsub
  have hpos : (e.1 - s.nextExpectedIdx).val ≠ 0 := by
    intro h0
    exact hsub (Fin.ext h0)
  unfold backlog
  rw [hp, h]
  simp only [hn, hval]
  omega

/-- `drain_consecutive_pending`: emit buffered entries while they continue the sequence. -/
def drainConsecutivePending (now : Instant) : WhileLoop PohSlot Output where
  body s :=
    match s.pending.firstKeyValue with
    | some e => if e.1 ≠ s.nextExpectedIdx then none else some (emitPending s e.2 now)
    | none => none
  measure := backlog
  decreases := by
    intro s t es h
    split at h
    · next e he =>
      split_ifs at h with hne
      exact backlog_emitPending he (Option.some.inj h)
    · simp at h

/-- Phase A of `sweep` on one slot: drain, and step over gaps whose first
pending entry has waited for `entry_timeout`. -/
def sweepGaps (cfg : Config) (slotKey : ℕ) (now : Instant) : WhileLoop PohSlot Output where
  body s :=
    match s.pending.firstKeyValue with
    | some e =>
      if e.1 = s.nextExpectedIdx then some (emitPending s e.2 now)
      else if cfg.entryTimeout ≤ now.saturatingDurationSince e.2.bufferedAt then
        some (emitMissing cfg s slotKey now)
      else none
    | none => none
  measure := backlog
  decreases := by
    intro s t es h
    split at h
    · next e he =>
      split_ifs at h with heq htime
      · exact backlog_emitPending he (Option.some.inj h)
      · exact backlog_emitMissing he heq (Option.some.inj h)
    · simp at h

/-- The flush of `seal_slot`: emit everything up to the highest pending index,
with a `Missing` for each gap. -/
def flushPending (cfg : Config) (slotKey : ℕ) (now : Instant) (maxIdx : U32) :
    WhileLoop PohSlot Output where
  body s :=
    if s.nextExpectedIdx ≤ maxIdx then
      match s.pending.firstKeyValue with
      | some e =>
        if e.1 = s.nextExpectedIdx then some (emitPending s e.2 now)
        else some (emitMissing cfg s slotKey now)
      | none => none
    else none
  measure := backlog
  decreases := by
    intro s t es h
    split_ifs at h with hle
    split at h
    · next e he =>
      split_ifs at h with heq
      · exact backlog_emitPending he (Option.some.inj h)
      · exact backlog_emitMissing he heq (Option.some.inj h)
    · simp at h

/-! ## Arrivals -/

/-- The first arrival of a slot starts its clock. -/
def touch (s : PohSlot) (now : Instant) : PohSlot :=
  { s with lastEmitAt := if s.lastEmitAt.isNone then some now else s.lastEmitAt }

/-- `process` on the state of the arrival's own slot. -/
def processSlot (cfg : Config) (s : PohSlot) (merged : MergedEntry) (now : Instant) :
    PohSlot × List Output :=
  let idx := merged.observation.entryIndex
  if s.sealed then (s, [.fetchAdd .lateArrivalsAfterSeal 1])
  else
    let s := touch s now
    if idx = s.nextExpectedIdx then
      let r := emitNext s merged now false 0
      let t := (drainConsecutivePending now).exec r.1
      (t.1, r.2 ++ t.2)
    else if idx > s.nextExpectedIdx then
      if s.pending.size ≥ cfg.maxPendingPerSlot then (s, [.fetchAdd .pendingDropsCapacity 1])
      else
        let s := { s with pending := s.pending.insert idx ⟨merged, now⟩ }
        (s, [.fetchMax .pendingPeakSize s.pending.size])
    else
      -- a late tick is still counted toward the slot's `tick_idx`
      ({ s with tickIdx := tickAfter s merged.observation }, [.fetchAdd .duplicatesDropped 1])

/-! ## Sealing -/

def terminalEvent (s : PohSlot) (slotKey : ℕ) : OrderedEvent :=
  let lastHash := s.lastEntryHash.getD 0
  if s.tickIdx ≥ TICKS_PER_SLOT then
    .slotComplete ⟨slotKey, s.totalEmitted, lastHash, s.tickIdx, s.missingCount⟩
  else
    .slotIncomplete ⟨slotKey, s.lastEntryIndex, lastHash, s.tickIdx, s.missingCount⟩

def terminalCounter (s : PohSlot) : Counter :=
  if s.tickIdx ≥ TICKS_PER_SLOT then .slotsComplete else .slotsIncomplete

/-- `seal_slot` on an unsealed slot: flush, set `sealed`, send the terminal event. -/
def sealSlot (cfg : Config) (s : PohSlot) (slotKey : ℕ) (now : Instant) :
    PohSlot × List Output :=
  let r :=
    match s.pending.lastKeyValue with
    | some e => (flushPending cfg slotKey now e.1).exec s
    | none => (s, [])
  let s := { r.1 with sealed := true }
  let missing : List Output := if s.hasMissing then [.fetchAdd .slotsWithMissing 1] else []
  (s, r.2 ++ missing ++ [.fetchAdd (terminalCounter s) 1, .send (terminalEvent s slotKey)])

/-- `Some(s) if !s.sealed => f(s), _ => nothing`. -/
def ifUnsealed (f : PohSlot → PohSlot × List Output) (s : PohSlot) : PohSlot × List Output :=
  if s.sealed then (s, []) else f s

/-! ## The worker -/

structure State where
  slots : SortedMap ℕ PohSlot := ∅
  maxSlot : ℕ := 0

def process (cfg : Config) (st : State) (merged : MergedEntry) (now : Instant) :
    State × List Output :=
  let slot := merged.observation.slot
  let r := processSlot cfg ((st.slots.get? slot).getD {}) merged now
  ({ st with slots := st.slots.insert slot r.1 }, r.2)

/-- Phase B seals a slot iff `max_slot >= lag` and `slot <= max_slot - lag`. -/
def lagsBehind (cfg : Config) (maxSlot slot : ℕ) : Bool :=
  decide (cfg.slotSealLagSlots ≤ maxSlot ∧ slot ≤ maxSlot - cfg.slotSealLagSlots)

/-- `max_slot.saturating_sub(lag + 10)`, where the sum is a `u64` that wraps. -/
def dropCutoff (cfg : Config) (maxSlot : ℕ) : ℕ :=
  maxSlot - (cfg.slotSealLagSlots + 10) % 2 ^ 64

/-- The slots phase B seals, out of those phase A left. -/
def toSeal (cfg : Config) (maxSlot : ℕ) (slots : SortedMap ℕ PohSlot) : List ℕ :=
  (slots.entries.filter fun e => lagsBehind cfg maxSlot e.1 && !e.2.sealed).map Prod.fst

def sweep (cfg : Config) (st : State) (now : Instant) : State × List Output :=
  let a := SortedMap.forEach
    (fun k => ifUnsealed fun s => (sweepGaps cfg k now).exec s) st.slots.keys st.slots
  let b := SortedMap.forEach
    (fun k => ifUnsealed fun s => sealSlot cfg s k now) (toSeal cfg st.maxSlot a.1) a.1
  let c := b.1.retain fun s slot => decide (s > dropCutoff cfg st.maxSlot) || !slot.sealed
  ({ st with slots := c }, a.2 ++ b.2)

/-- What the loop does in one iteration: take a message, or run the periodic sweep. -/
inductive Input
  | arrival (merged : MergedEntry) (now : Instant)
  | sweep (now : Instant)

def machine (cfg : Config) : EventMachine State Input Output where
  step st
    | .arrival merged now =>
      process cfg { st with maxSlot := max st.maxSlot merged.observation.slot } merged now
    | .sweep now => sweep cfg st now

/-- The final flush of `run_loop`: sweep, then seal everything left. -/
def shutdown (cfg : Config) (st : State) (now : Instant) : State × List Output :=
  let r := sweep cfg st now
  let t := SortedMap.forEach
    (fun k => ifUnsealed fun s => sealSlot cfg s k now) r.1.slots.keys r.1.slots
  ({ r.1 with slots := t.1 }, r.2 ++ t.2)

/-- Everything the worker sends from start to shutdown. -/
def runLoop (cfg : Config) (is : List Input) (now : Instant) : List OrderedEvent :=
  let r := (machine cfg).run {} is
  Effect.sent (r.2 ++ (shutdown cfg r.1 now).2)

end SolanaBench.TickTrigger.PohSupervisor
