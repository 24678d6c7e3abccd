import Mathlib.Data.Finset.Card
import SolanaBench.EntrySources.Observation
import SolanaBench.Lib.EventMachine
import SolanaBench.Lib.SortedMap

/-! The per-slot ordering tracker: the progress of every slot that is not sealed, and the
reports that are built when the high-water slot moves on or at shutdown. -/
namespace SolanaBench.TickTrigger.Ordering

structure SlotOrderingReport where
  slot : ℕ
  entriesSeen : ℕ
  maxIndex : ℕ
  outOfOrderCount : ℕ
  maxBackwardGap : ℕ
  missingIndices : List ℕ
  lastEntryWasTick : Bool
  lastEntryTxCount : ℕ
  deriving DecidableEq, Repr

structure OrderingCounters where
  slotsSealed : ℕ := 0
  slotsFullyOrdered : ℕ := 0
  slotsWithDisorder : ℕ := 0
  slotsWithGaps : ℕ := 0
  slotsEndingOnTick : ℕ := 0
  totalOutOfOrder : ℕ := 0
  totalMissingIndices : ℕ := 0
  deriving DecidableEq, Repr

/-- `lastEntry` is the highest index so far with the transaction count of that entry. -/
structure SlotProgress where
  seenIndices : Finset ℕ := ∅
  maxIndexAtArrival : ℕ := 0
  outOfOrder : ℕ := 0
  maxBackwardGap : ℕ := 0
  lastEntry : Option (ℕ × ℕ) := none
  deriving DecidableEq

structure OrderingTracker where
  counters : OrderingCounters := {}
  inProgress : SortedMap ℕ SlotProgress := ∅
  sealedReports : List SlotOrderingReport := []
  highWater : ℕ := 0
  sealLag : ℕ

def SlotProgress.observe (prog : SlotProgress) (obs : EntryObservation) : SlotProgress :=
  let idx := obs.entryIndex.val
  let prog :=
    if idx < prog.maxIndexAtArrival then
      let gap := prog.maxIndexAtArrival - idx
      { prog with
        outOfOrder := (prog.outOfOrder + 1) % 2 ^ 32
        maxBackwardGap := if gap > prog.maxBackwardGap then gap else prog.maxBackwardGap }
    else if idx > prog.maxIndexAtArrival then
      { prog with maxIndexAtArrival := idx, lastEntry := some (idx, obs.txCount) }
    else prog
  { prog with seenIndices := insert idx prog.seenIndices }

def buildReport (slot : ℕ) (prog : SlotProgress) : SlotOrderingReport :=
  let last := prog.lastEntry.getD (0, 0)
  { slot
    entriesSeen := prog.seenIndices.card % 2 ^ 32
    maxIndex := last.1
    outOfOrderCount := prog.outOfOrder
    maxBackwardGap := prog.maxBackwardGap
    missingIndices :=
      if prog.seenIndices = ∅ then []
      else (List.range (last.1 + 1)).filter fun i => decide (i ∉ prog.seenIndices)
    lastEntryWasTick := last.2 == 0
    lastEntryTxCount := last.2 }

def OrderingCounters.update (c : OrderingCounters) (report : SlotOrderingReport) :
    OrderingCounters where
  slotsSealed := c.slotsSealed + 1
  slotsFullyOrdered := c.slotsFullyOrdered +
    if report.outOfOrderCount = 0 ∧ report.missingIndices = [] then 1 else 0
  slotsWithDisorder := c.slotsWithDisorder + if report.outOfOrderCount > 0 then 1 else 0
  slotsWithGaps := c.slotsWithGaps + if report.missingIndices ≠ [] then 1 else 0
  slotsEndingOnTick := c.slotsEndingOnTick + if report.lastEntryWasTick then 1 else 0
  totalOutOfOrder := c.totalOutOfOrder + report.outOfOrderCount
  totalMissingIndices := c.totalMissingIndices + report.missingIndices.length

namespace OrderingTracker

/-- The loop over `to_seal`: each slot that is in progress is removed and reported. -/
def sealSlots (t : OrderingTracker) : List ℕ → OrderingTracker × List SlotOrderingReport
  | [] => (t, [])
  | slot :: slots =>
    match t.inProgress.get? slot with
    | none => t.sealSlots slots
    | some prog =>
      let report := buildReport slot prog
      let r := OrderingTracker.sealSlots
        { t with
          inProgress := t.inProgress.erase slot
          counters := t.counters.update report
          sealedReports := t.sealedReports ++ [report] } slots
      (r.1, report :: r.2)

def maybeSeal (t : OrderingTracker) : OrderingTracker × List SlotOrderingReport :=
  if t.highWater ≤ t.sealLag then (t, [])
  else
    let cutoff := t.highWater - t.sealLag
    t.sealSlots (t.inProgress.keys.filter fun slot => decide (slot ≤ cutoff))

/-- What `observe` records before it looks for slots to seal. -/
def recordEntry (t : OrderingTracker) (obs : EntryObservation) : OrderingTracker :=
  let prog := (t.inProgress.get? obs.slot).getD {}
  { t with
    highWater := if obs.slot > t.highWater then obs.slot else t.highWater
    inProgress := t.inProgress.insert obs.slot (prog.observe obs) }

def observe (t : OrderingTracker) (obs : EntryObservation) :
    OrderingTracker × List SlotOrderingReport :=
  (t.recordEntry obs).maybeSeal

def flushAll (t : OrderingTracker) : OrderingTracker × List SlotOrderingReport :=
  t.sealSlots t.inProgress.keys

end OrderingTracker

/-- The calls a tracker serves. -/
inductive Event
  | observe (obs : EntryObservation)
  | flushAll
  deriving DecidableEq, Repr

def machine : EventMachine OrderingTracker Event SlotOrderingReport where
  step t
    | .observe obs => t.observe obs
    | .flushAll => t.flushAll

/-! ## Sealing -/

section

variable {t : OrderingTracker} {slots : List ℕ} {r : SlotOrderingReport}

theorem get?_sealSlots (t : OrderingTracker) (slots : List ℕ) (k : ℕ) :
    (t.sealSlots slots).1.inProgress.get? k =
      if k ∈ slots then none else t.inProgress.get? k := by
  induction slots generalizing t with
  | nil => rfl
  | cons slot slots ih =>
    unfold OrderingTracker.sealSlots
    cases hslot : t.inProgress.get? slot with
    | none =>
      rw [ih]
      by_cases hk : k = slot
      · simp [hk, hslot]
      · simp [hk]
    | some prog =>
      dsimp only
      rw [ih]
      dsimp only
      rw [SortedMap.get?_erase]
      by_cases hk : k = slot <;> simp [hk]

/-- Each of the slots that is in progress is reported. -/
theorem mem_sealSlots (hnd : slots.Nodup) : r ∈ (t.sealSlots slots).2 ↔
    ∃ slot ∈ slots, ∃ prog, t.inProgress.get? slot = some prog ∧ r = buildReport slot prog := by
  induction slots generalizing t with
  | nil => simp [OrderingTracker.sealSlots]
  | cons slot slots ih =>
    obtain ⟨hslots, hnd⟩ := List.nodup_cons.mp hnd
    unfold OrderingTracker.sealSlots
    cases hslot : t.inProgress.get? slot with
    | none => simp [ih hnd, hslot]
    | some prog =>
      dsimp only
      rw [List.mem_cons, ih hnd]
      simp only [List.mem_cons, exists_eq_or_imp, hslot, Option.some.injEq, exists_eq_left']
      refine or_congr_right (exists_congr fun k => and_congr_right fun hk => ?_)
      have hne : k ≠ slot := fun h => hslots (h ▸ hk)
      rw [SortedMap.get?_erase, if_neg hne]

/-- The counters and the list of sealed reports grow by the reports that are returned. -/
theorem sealSlots_sealedReports (t : OrderingTracker) (slots : List ℕ) :
    (t.sealSlots slots).1.sealedReports = t.sealedReports ++ (t.sealSlots slots).2 ∧
      (t.sealSlots slots).1.counters =
        (t.sealSlots slots).2.foldl OrderingCounters.update t.counters := by
  induction slots generalizing t with
  | nil => simp [OrderingTracker.sealSlots]
  | cons slot slots ih =>
    unfold OrderingTracker.sealSlots
    split
    · exact ih t
    · obtain ⟨hreports, hcounters⟩ := ih
        { t with
          inProgress := t.inProgress.erase slot
          counters := t.counters.update (buildReport slot ‹_›)
          sealedReports := t.sealedReports ++ [buildReport slot ‹_›] }
      dsimp only
      rw [hreports, hcounters]
      simp

end

/-- The slots that a call seals, once its entry is recorded. -/
def sealedBy (t : OrderingTracker) : Event → List ℕ
  | .observe obs =>
    let t := t.recordEntry obs
    if t.highWater ≤ t.sealLag then []
    else t.inProgress.keys.filter fun slot => decide (slot ≤ t.highWater - t.sealLag)
  | .flushAll => t.inProgress.keys

/-- The tracker before a call seals. -/
def recorded (t : OrderingTracker) : Event → OrderingTracker
  | .observe obs => t.recordEntry obs
  | .flushAll => t

theorem step_eq (t : OrderingTracker) (e : Event) :
    machine.step t e = (recorded t e).sealSlots (sealedBy t e) := by
  cases e with
  | observe obs =>
    change (t.recordEntry obs).maybeSeal = (t.recordEntry obs).sealSlots (sealedBy t (.observe obs))
    unfold OrderingTracker.maybeSeal sealedBy
    dsimp only
    split <;> rfl
  | flushAll => rfl

theorem sealedBy_nodup (t : OrderingTracker) (e : Event) : (sealedBy t e).Nodup := by
  cases e with
  | observe obs =>
    unfold sealedBy
    dsimp only
    split
    · exact List.nodup_nil
    · exact SortedMap.keys_nodup.filter _
  | flushAll => exact SortedMap.keys_nodup

/-- In every run the counters tally the sealed reports. -/
theorem counters_tally (sealLag : ℕ) (es : List Event) :
    let t := (machine.run { sealLag } es).1
    t.sealedReports = (machine.run { sealLag } es).2 ∧
      t.counters = t.sealedReports.foldl OrderingCounters.update {} := by
  refine machine.run_rule (fun _ t os => t.sealedReports = os ∧
    t.counters = t.sealedReports.foldl OrderingCounters.update {}) _ ⟨rfl, rfl⟩ ?_ es
  rintro - t os e ⟨hreports, hcounters⟩
  have hframe : (recorded t e).sealedReports = t.sealedReports ∧
      (recorded t e).counters = t.counters := by
    cases e <;> exact ⟨rfl, rfl⟩
  obtain ⟨hsealed, htally⟩ := sealSlots_sealedReports (recorded t e) (sealedBy t e)
  rw [step_eq]
  refine ⟨by rw [hsealed, hframe.1, hreports], ?_⟩
  rw [hsealed, htally, hframe.1, hframe.2, hcounters, List.foldl_append]

end SolanaBench.TickTrigger.Ordering
