import Mathlib.Data.Finset.Dedup
import Mathlib.Order.Bounds.Defs
import SolanaBench.TickTrigger.Ordering

/-! What the report of a slot says about the observations of the slot since it was last
sealed, for every run of the tracker. -/
namespace SolanaBench.TickTrigger.Ordering

/-! ## What should be reported -/

/-- The maximum index of some arrivals. -/
def highestIndex (obs : List EntryObservation) : ℕ :=
  obs.foldl (fun top o => max top o.entryIndex.val) 0

/-- How far each arrival lies below the maximum at its arrival. -/
def backwardGaps (obs : List EntryObservation) : List ℕ :=
  obs.zipIdx.map fun e => highestIndex (obs.take e.2) - e.1.entryIndex.val

def distinctIndices (obs : List EntryObservation) : List ℕ :=
  (obs.map fun o => o.entryIndex.val).dedup

def outOfOrderArrivals (obs : List EntryObservation) : ℕ :=
  (backwardGaps obs).countP fun gap => decide (0 < gap)

structure IsReport (obs : List EntryObservation) (r : SlotOrderingReport) : Prop where
  entriesSeen : r.entriesSeen = (distinctIndices obs).length
  maxIndex : IsGreatest {i | ∃ o ∈ obs, o.entryIndex.val = i} r.maxIndex
  outOfOrderCount : r.outOfOrderCount = outOfOrderArrivals obs
  maxBackwardGap : r.maxBackwardGap = (backwardGaps obs).foldl max 0
  missingIndices : r.missingIndices =
    (List.range (r.maxIndex + 1)).filter fun i => decide (∀ o ∈ obs, o.entryIndex.val ≠ i)
  lastEntry : ∃ o, obs.find? (fun o => decide (o.entryIndex.val = r.maxIndex)) = some o ∧
    r.lastEntryTxCount = o.txCount ∧ r.lastEntryWasTick = o.isTick

/-- The two counts fit into 32 bits, and where no index above 0 arrived, the first arrival
carried no transactions. -/
structure Reportable (obs : List EntryObservation) : Prop where
  entries : (distinctIndices obs).length < 2 ^ 32
  outOfOrder : outOfOrderArrivals obs < 2 ^ 32
  last : (∃ o ∈ obs, 0 < o.entryIndex.val) ∨ ∀ o ∈ obs.head?, o.txCount = 0

/-! ## The progress of one slot -/

section

variable {obs : List EntryObservation} {o : EntryObservation}

theorem highestIndex_snoc :
    highestIndex (obs ++ [o]) = max (highestIndex obs) o.entryIndex.val := by
  unfold highestIndex
  rw [List.foldl_append]
  rfl

theorem le_highestIndex (ho : o ∈ obs) : o.entryIndex.val ≤ highestIndex obs := by
  induction obs using List.reverseRecOn with
  | nil => cases ho
  | append_singleton obs x ih =>
    rw [highestIndex_snoc]
    rcases List.mem_append.mp ho with ho | ho
    · exact le_max_of_le_left (ih ho)
    · rw [List.mem_singleton.mp ho]
      exact le_max_right _ _

theorem exists_highestIndex (hobs : obs ≠ []) : ∃ o ∈ obs, o.entryIndex.val = highestIndex obs := by
  induction obs using List.reverseRecOn with
  | nil => exact absurd rfl hobs
  | append_singleton obs x ih =>
    rw [highestIndex_snoc]
    rcases le_total (highestIndex obs) x.entryIndex.val with hle | hle
    · exact ⟨x, by simp, (max_eq_right hle).symm⟩
    · rcases List.eq_nil_or_concat obs with rfl | ⟨pre, y, rfl⟩
      · exact ⟨x, by simp, (max_eq_right (Nat.zero_le _)).symm⟩
      · obtain ⟨w, hw, heq⟩ := ih (by simp)
        exact ⟨w, List.mem_append_left _ hw, heq.trans (max_eq_left hle).symm⟩

theorem isGreatest_highestIndex (hobs : obs ≠ []) :
    IsGreatest {i | ∃ o ∈ obs, o.entryIndex.val = i} (highestIndex obs) := by
  refine ⟨exists_highestIndex hobs, ?_⟩
  rintro i ⟨o, ho, rfl⟩
  exact le_highestIndex ho

theorem backwardGaps_snoc :
    backwardGaps (obs ++ [o]) = backwardGaps obs ++ [highestIndex obs - o.entryIndex.val] := by
  unfold backwardGaps
  rw [List.zipIdx_append, List.map_append]
  congr 1
  · refine List.map_congr_left fun e he => ?_
    have hlt : e.2 < obs.length := by
      have hget := List.mem_zipIdx_iff_getElem?.mp he
      exact (List.getElem?_eq_some_iff.mp hget).1
    rw [List.take_append_of_le_length hlt.le]
  · simp

/-- What was recorded of a slot by its arrivals. -/
def progress (obs : List EntryObservation) : SlotProgress := obs.foldl SlotProgress.observe {}

theorem progress_snoc : progress (obs ++ [o]) = (progress obs).observe o := by
  unfold progress
  rw [List.foldl_append]
  rfl

section observe

variable (prog : SlotProgress) (o : EntryObservation)

theorem observe_seenIndices :
    (prog.observe o).seenIndices = insert o.entryIndex.val prog.seenIndices := by
  unfold SlotProgress.observe
  dsimp only
  split
  · rfl
  · split <;> rfl

theorem observe_maxIndexAtArrival :
    (prog.observe o).maxIndexAtArrival = max prog.maxIndexAtArrival o.entryIndex.val := by
  unfold SlotProgress.observe
  dsimp only
  split
  · exact (max_eq_left (le_of_lt ‹_›)).symm
  · split
    · exact (max_eq_right (le_of_lt ‹_›)).symm
    · exact (max_eq_left (not_lt.mp ‹_›)).symm

theorem observe_outOfOrder :
    (prog.observe o).outOfOrder =
      if 0 < prog.maxIndexAtArrival - o.entryIndex.val then (prog.outOfOrder + 1) % 2 ^ 32
      else prog.outOfOrder := by
  unfold SlotProgress.observe
  dsimp only
  simp only [Nat.sub_pos_iff_lt]
  split
  · rfl
  · split <;> rfl

theorem observe_maxBackwardGap :
    (prog.observe o).maxBackwardGap =
      max prog.maxBackwardGap (prog.maxIndexAtArrival - o.entryIndex.val) := by
  unfold SlotProgress.observe
  dsimp only
  split
  · dsimp only
    split
    · exact (max_eq_right (le_of_lt ‹_›)).symm
    · exact (max_eq_left (not_lt.mp ‹_›)).symm
  · have hzero : prog.maxIndexAtArrival - o.entryIndex.val = 0 := by omega
    rw [hzero, max_eq_left (Nat.zero_le _)]
    split <;> rfl

theorem observe_lastEntry :
    (prog.observe o).lastEntry =
      if o.entryIndex.val > prog.maxIndexAtArrival then some (o.entryIndex.val, o.txCount)
      else prog.lastEntry := by
  unfold SlotProgress.observe
  dsimp only
  split
  · exact (if_neg (not_lt.mpr (le_of_lt ‹_›))).symm
  · split <;> rfl

end observe

theorem progress_seenIndices (obs : List EntryObservation) :
    (progress obs).seenIndices = (distinctIndices obs).toFinset := by
  induction obs using List.reverseRecOn with
  | nil => rfl
  | append_singleton obs o ih =>
    rw [progress_snoc, observe_seenIndices, ih]
    ext i
    simp [distinctIndices, or_comm, eq_comm]

theorem progress_maxIndexAtArrival (obs : List EntryObservation) :
    (progress obs).maxIndexAtArrival = highestIndex obs := by
  induction obs using List.reverseRecOn with
  | nil => rfl
  | append_singleton obs o ih =>
    rw [progress_snoc, observe_maxIndexAtArrival, ih, highestIndex_snoc]

theorem progress_outOfOrder (obs : List EntryObservation) :
    (progress obs).outOfOrder = outOfOrderArrivals obs % 2 ^ 32 := by
  induction obs using List.reverseRecOn with
  | nil => rfl
  | append_singleton obs o ih =>
    rw [progress_snoc, observe_outOfOrder, progress_maxIndexAtArrival, ih]
    unfold outOfOrderArrivals
    rw [backwardGaps_snoc, List.countP_append, List.countP_singleton]
    split
    · simp [*]
    · simp [*]

theorem progress_maxBackwardGap (obs : List EntryObservation) :
    (progress obs).maxBackwardGap = (backwardGaps obs).foldl max 0 := by
  induction obs using List.reverseRecOn with
  | nil => rfl
  | append_singleton obs o ih =>
    rw [progress_snoc, observe_maxBackwardGap, progress_maxIndexAtArrival, ih, backwardGaps_snoc,
      List.foldl_append]
    rfl

/-- Index 0 never counts as a last entry. -/
theorem progress_lastEntry (obs : List EntryObservation) :
    (progress obs).lastEntry =
      if highestIndex obs = 0 then none
      else (obs.find? fun o => decide (o.entryIndex.val = highestIndex obs)).map
        fun o => (highestIndex obs, o.txCount) := by
  induction obs using List.reverseRecOn with
  | nil => rfl
  | append_singleton obs o ih =>
    rw [progress_snoc, observe_lastEntry, progress_maxIndexAtArrival, ih, highestIndex_snoc]
    rcases le_or_gt o.entryIndex.val (highestIndex obs) with hle | hlt
    · rw [if_neg (not_lt.mpr hle), max_eq_left hle]
      split
      · rfl
      · next hne =>
        obtain ⟨w, hw, heq⟩ : ∃ w ∈ obs, w.entryIndex.val = highestIndex obs :=
          exists_highestIndex fun h => hne (by rw [h]; rfl)
        have hfound : (obs.find? fun o => decide (o.entryIndex.val = highestIndex obs)).isSome :=
          List.find?_isSome.mpr ⟨w, hw, by simpa using heq⟩
        rw [List.find?_append, Option.or_of_isSome hfound]
    · have hnone : (obs.find? fun w => decide (w.entryIndex.val = o.entryIndex.val)) = none :=
        List.find?_eq_none.mpr fun w hw => by
          have hle := le_highestIndex hw
          simp only [decide_eq_true_eq]
          omega
      rw [if_pos hlt, max_eq_right hlt.le, if_neg (by omega), List.find?_append, hnone]
      simp

/-! ## The report of one slot -/

/-- The maximum index is reported also where index 0 is the only one. -/
theorem buildReport_maxIndex (slot : ℕ) (hobs : obs ≠ []) :
    (buildReport slot (progress obs)).maxIndex = highestIndex obs := by
  unfold buildReport
  dsimp only
  rw [progress_lastEntry]
  split
  · next hzero => exact hzero.symm
  · obtain ⟨w, hw, heq⟩ := exists_highestIndex hobs
    cases hfind : obs.find? fun o => decide (o.entryIndex.val = highestIndex obs) with
    | none => exact absurd heq (by simpa using List.find?_eq_none.mp hfind w hw)
    | some o => rfl

theorem mem_seenIndices {i : ℕ} :
    i ∈ (progress obs).seenIndices ↔ ∃ o ∈ obs, o.entryIndex.val = i := by
  rw [progress_seenIndices]
  simp [distinctIndices]

theorem buildReport_missingIndices (slot : ℕ) (hobs : obs ≠ []) :
    (buildReport slot (progress obs)).missingIndices =
      (List.range (highestIndex obs + 1)).filter
        fun i => decide (∀ o ∈ obs, o.entryIndex.val ≠ i) := by
  have hmax := buildReport_maxIndex slot hobs
  unfold buildReport at hmax ⊢
  dsimp only at hmax ⊢
  obtain ⟨o, ho, hidx⟩ := exists_highestIndex hobs
  have hmem := mem_seenIndices.mpr ⟨o, ho, hidx⟩
  rw [if_neg (Finset.ne_empty_of_mem hmem), hmax]
  refine List.filter_congr fun i hi => ?_
  simp [mem_seenIndices]

theorem buildReport_entriesSeen (slot : ℕ) (obs : List EntryObservation) :
    (buildReport slot (progress obs)).entriesSeen = (distinctIndices obs).length % 2 ^ 32 := by
  unfold buildReport
  dsimp only
  rw [progress_seenIndices, List.card_toFinset]
  unfold distinctIndices
  rw [List.dedup_idem]

/-- The last entry of the report is the first arrival with the highest index, or, where that is
index 0, an entry without transactions. -/
theorem buildReport_lastEntry (slot : ℕ) (hobs : obs ≠ []) :
    let r := buildReport slot (progress obs)
    (∃ o, obs.find? (fun o => decide (o.entryIndex.val = r.maxIndex)) = some o ∧
        r.lastEntryTxCount = o.txCount ∧ r.lastEntryWasTick = o.isTick) ↔
      (∃ o ∈ obs, 0 < o.entryIndex.val) ∨ ∀ o ∈ obs.head?, o.txCount = 0 := by
  dsimp only
  rw [buildReport_maxIndex slot hobs]
  unfold buildReport
  dsimp only
  rw [progress_lastEntry]
  split
  · next hzero =>
    -- every index is 0, so the first arrival is the one to report
    have hall : ∀ o ∈ obs, o.entryIndex.val = 0 := fun o ho =>
      Nat.le_zero.mp ((le_highestIndex ho).trans hzero.le)
    have hnone : ¬∃ o ∈ obs, 0 < o.entryIndex.val := fun ⟨o, ho, hpos⟩ =>
      absurd (hall o ho) hpos.ne'
    rw [hzero, or_iff_right hnone]
    cases obs with
    | nil => exact absurd rfl hobs
    | cons o obs =>
      rw [List.find?_cons_of_pos (by simpa using hall o List.mem_cons_self)]
      constructor
      · rintro ⟨w, hw, htx, -⟩ w' hw'
        cases hw
        cases hw'
        exact htx.symm
      · intro hfirst
        have hzero := hfirst o rfl
        exact ⟨o, rfl, hzero.symm, by simp [EntryObservation.isTick, hzero]⟩
  · next hne =>
    obtain ⟨w, hw, heq⟩ := exists_highestIndex hobs
    refine iff_of_true ?_ (Or.inl ⟨w, hw, by omega⟩)
    cases hfind : obs.find? fun o => decide (o.entryIndex.val = highestIndex obs) with
    | none => exact absurd heq (by simpa using List.find?_eq_none.mp hfind w hw)
    | some o => exact ⟨o, rfl, rfl, rfl⟩

theorem isReport_buildReport_iff (slot : ℕ) (hobs : obs ≠ []) :
    IsReport obs (buildReport slot (progress obs)) ↔ Reportable obs := by
  have hlast := buildReport_lastEntry slot hobs
  have hseen := buildReport_entriesSeen slot obs
  have hooo : (buildReport slot (progress obs)).outOfOrderCount = outOfOrderArrivals obs % 2 ^ 32 :=
    progress_outOfOrder obs
  constructor
  · intro h
    refine ⟨?_, ?_, hlast.mp h.lastEntry⟩
    · rw [← h.entriesSeen, hseen]
      exact Nat.mod_lt _ (Nat.two_pow_pos 32)
    · rw [← h.outOfOrderCount, hooo]
      exact Nat.mod_lt _ (Nat.two_pow_pos 32)
  · intro h
    have hmissing := buildReport_missingIndices slot hobs
    rw [← buildReport_maxIndex slot hobs] at hmissing
    refine ⟨?_, ?_, ?_, progress_maxBackwardGap obs, hmissing, hlast.mpr h.last⟩
    · rw [hseen, Nat.mod_eq_of_lt h.entries]
    · rw [buildReport_maxIndex slot hobs]
      exact isGreatest_highestIndex hobs
    · rw [hooo, Nat.mod_eq_of_lt h.outOfOrder]

/-! ## Runs of the tracker -/

/-- The observation of a slot that a call delivers. -/
def Event.obsOf (slot : ℕ) : Event → List EntryObservation
  | .observe obs => if obs.slot = slot then [obs] else []
  | .flushAll => []

/-- The calls of a run with the reports each of them returned. -/
def trace (sealLag : ℕ) (es : List Event) : List (Event × List SlotOrderingReport) :=
  machine.readings (fun t e => [(e, (machine.step t e).2)]) { sealLag } es

/-- The observations of a slot since its last report. -/
def pending (slot : ℕ) (calls : List (Event × List SlotOrderingReport)) :
    List EntryObservation :=
  calls.foldl (fun obs call =>
    if ∃ r ∈ call.2, r.slot = slot then [] else obs ++ call.1.obsOf slot) []

/-- The state after some calls. -/
def stateAfter (sealLag : ℕ) (es : List Event) : OrderingTracker :=
  (machine.run { sealLag } es).1

/-- The progress entry of a slot with these observations. -/
def entryOf (obs : List EntryObservation) : Option SlotProgress :=
  if obs = [] then none else some (progress obs)

theorem pending_snoc {slot : ℕ} {calls : List (Event × List SlotOrderingReport)}
    {call : Event × List SlotOrderingReport} :
    pending slot (calls ++ [call]) =
      if ∃ r ∈ call.2, r.slot = slot then [] else pending slot calls ++ call.1.obsOf slot := by
  unfold pending
  rw [List.foldl_append]
  rfl

theorem trace_snoc {sealLag : ℕ} {es : List Event} {e : Event} :
    trace sealLag (es ++ [e]) =
      trace sealLag es ++ [(e, (machine.step (stateAfter sealLag es) e).2)] :=
  EventMachine.readings_snoc _ _ _ _ _

/-- Recording an entry appends it to the observations of its slot. -/
theorem get?_recorded {t : OrderingTracker} {obs : ℕ → List EntryObservation}
    (ht : ∀ slot, t.inProgress.get? slot = entryOf (obs slot)) (e : Event) (slot : ℕ) :
    (recorded t e).inProgress.get? slot = entryOf (obs slot ++ e.obsOf slot) := by
  cases e with
  | flushAll => simpa [recorded, Event.obsOf] using ht slot
  | observe o =>
    unfold recorded OrderingTracker.recordEntry Event.obsOf
    dsimp only
    rw [SortedMap.get?_insert, ht, ht]
    by_cases hslot : slot = o.slot
    · have hprog : (entryOf (obs o.slot)).getD {} = progress (obs o.slot) := by
        unfold entryOf
        split
        · next hnil => rw [hnil]; rfl
        · rfl
      rw [if_pos hslot, if_pos hslot.symm, hslot, hprog, ← progress_snoc]
      exact (if_neg (by simp)).symm
    · rw [if_neg hslot, if_neg fun h => hslot h.symm, List.append_nil]

/-- A call reports the slots it seals that have observations. -/
theorem exists_report_iff {t : OrderingTracker} {obs : ℕ → List EntryObservation}
    (ht : ∀ slot, t.inProgress.get? slot = entryOf (obs slot)) (e : Event) (slot : ℕ) :
    (∃ r ∈ (machine.step t e).2, r.slot = slot) ↔
      slot ∈ sealedBy t e ∧ obs slot ++ e.obsOf slot ≠ [] := by
  rw [step_eq]
  constructor
  · rintro ⟨r, hr, rfl⟩
    obtain ⟨slot, hmem, prog, hprog, rfl⟩ := (mem_sealSlots (sealedBy_nodup t e)).mp hr
    rw [get?_recorded ht] at hprog
    refine ⟨hmem, fun hnil => ?_⟩
    have hnone : entryOf (obs slot ++ e.obsOf slot) = none := if_pos hnil
    rw [hnone] at hprog
    cases hprog
  · rintro ⟨hmem, hne⟩
    have hprog : (recorded t e).inProgress.get? slot = some (progress (obs slot ++ e.obsOf slot)) :=
      (get?_recorded ht e slot).trans (if_neg hne)
    exact ⟨_, (mem_sealSlots (sealedBy_nodup t e)).mpr ⟨slot, hmem, _, hprog, rfl⟩, rfl⟩

/-- What is in progress is what was observed of each slot since its last report. -/
theorem inProgress_stateAfter (sealLag : ℕ) (es : List Event) (slot : ℕ) :
    (stateAfter sealLag es).inProgress.get? slot = entryOf (pending slot (trace sealLag es)) := by
  induction es using List.reverseRecOn generalizing slot with
  | nil => rfl
  | append_singleton es e ih =>
    have hrec := get?_recorded ih e slot
    have hreport := exists_report_iff ih e slot
    have hstate : stateAfter sealLag (es ++ [e]) =
        (machine.step (stateAfter sealLag es) e).1 := EventMachine.run_snoc_fst _ _ _ _
    rw [hstate, trace_snoc, pending_snoc]
    by_cases hsealed : ∃ r ∈ (machine.step (stateAfter sealLag es) e).2, r.slot = slot
    · rw [if_pos hsealed, step_eq, get?_sealSlots, if_pos (hreport.mp hsealed).1]
      rfl
    · rw [if_neg hsealed, step_eq, get?_sealSlots, hrec]
      split
      · next hmem =>
        have hnil : pending slot (trace sealLag es) ++ e.obsOf slot = [] := by
          by_contra hne
          exact hsealed (hreport.mpr ⟨hmem, hne⟩)
        rw [hnil]
        rfl
      · rfl

/-- Each report of a run is built from the observations of its slot since the last one. -/
theorem eq_buildReport (sealLag : ℕ) (es : List Event) (e : Event) {r : SlotOrderingReport}
    (hr : r ∈ (machine.step (stateAfter sealLag es) e).2) :
    let obs := pending r.slot (trace sealLag es) ++ e.obsOf r.slot
    obs ≠ [] ∧ r = buildReport r.slot (progress obs) := by
  have ht := inProgress_stateAfter sealLag es
  have hne := ((exists_report_iff ht e r.slot).mp ⟨r, hr, rfl⟩).2
  refine ⟨hne, ?_⟩
  rw [step_eq] at hr
  obtain ⟨slot, -, prog, hprog, rfl⟩ := (mem_sealSlots (sealedBy_nodup _ e)).mp hr
  rw [get?_recorded ht] at hprog
  exact congrArg (buildReport slot) (Option.some.inj (hprog.symm.trans (if_neg hne)))

/-- The report that ends a slot is right about the arrivals before it exactly if the counts fit
and the slot did not end on an index 0 with transactions. Shutdown reports every slot that is
left. -/
theorem slot_report_iff (sealLag : ℕ) (es : List Event) :
    (∀ e, ∀ r ∈ (machine.step (stateAfter sealLag es) e).2,
      let obs := pending r.slot (trace sealLag es) ++ e.obsOf r.slot
      IsReport obs r ↔ Reportable obs) ∧
    ∀ slot, pending slot (trace sealLag es) ≠ [] →
      ∃ r ∈ (machine.step (stateAfter sealLag es) .flushAll).2, r.slot = slot := by
  constructor
  · intro e r hr
    obtain ⟨hne, heq⟩ := eq_buildReport sealLag es e hr
    dsimp only
    conv_lhs => rw [heq]
    exact isReport_buildReport_iff r.slot hne
  · intro slot hslot
    have ht := inProgress_stateAfter sealLag es
    refine (exists_report_iff ht .flushAll slot).mpr ⟨?_, by simpa [Event.obsOf] using hslot⟩
    exact SortedMap.mem_keys_iff.mpr ⟨_, (ht slot).trans (if_neg hslot)⟩

end

/-- An observation of which only the slot, the index and the transactions matter. -/
def arrival (slot : ℕ) (entryIndex : U32) (txCount : ℕ) : EntryObservation where
  source := .shredStream
  observedAt := 0
  slot := slot
  entryIndex := entryIndex
  numHashes := 62_500
  entryHash := 0
  txCount := txCount
  signatures := []

/-- Slot 100 is sealed by an entry of slot 104, after indices 0, 2 and 1 arrived. -/
theorem slot_report_iff_backwards :
    let es := [.observe (arrival 100 0 1), .observe (arrival 100 2 0), .observe (arrival 100 1 1)]
    let r : SlotOrderingReport := ⟨100, 3, 2, 1, 1, [], true, 0⟩
    IsReport (pending 100 (trace 3 es)) r := by
  dsimp only
  have h := (slot_report_iff 3
    [.observe (arrival 100 0 1), .observe (arrival 100 2 0), .observe (arrival 100 1 1)]).1
    (.observe (arrival 104 0 1)) ⟨100, 3, 2, 1, 1, [], true, 0⟩ (by decide)
  exact h.mpr ⟨by decide, by decide, by decide⟩

/-- The only entry of slot 100 has index 0 and five transactions, and is reported as a tick. -/
theorem index_zero_reported_as_tick :
    let es := [.observe (arrival 100 0 5)]
    ∃ r ∈ (machine.step (stateAfter 3 es) (.observe (arrival 104 0 1))).2,
      r.slot = 100 ∧ r.lastEntryTxCount = 0 ∧ r.lastEntryWasTick = true ∧
        ¬IsReport (pending 100 (trace 3 es)) r := by
  refine ⟨⟨100, 1, 0, 0, 0, [], true, 0⟩, by decide, rfl, rfl, rfl, fun h => ?_⟩
  obtain ⟨o, ho, htx, -⟩ := h.lastEntry
  have hobs : o = arrival 100 0 5 := (Option.some.inj (Eq.trans (by decide) ho)).symm
  rw [hobs] at htx
  exact absurd htx (by decide)

end SolanaBench.TickTrigger.Ordering
