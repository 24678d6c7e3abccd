import SolanaBench.TickTriggerBench.ObserverTicks

/-! A slot that comes in order: its match events tell a tick and the hashes into the slot, and
both are of the same place. -/
namespace SolanaBench.TickTriggerBench

/-- A tick and a number of hashes that are of the same place in the slot. -/
structure MatchEvent.InTick (ev : MatchEvent) (tick hashes : ℕ) : Prop where
  tick_eq : ev.observedTickInSlot = some tick
  hashes_eq : ev.observedCumulativeHashesInSlot = some hashes
  tick_le : tick ≤ 64
  le_hashes : tick * 62_500 ≤ hashes
  hashes_lt : hashes < (tick + 1) * 62_500

namespace Observer

open WindowRule

def Input.slot? : Input → Option ℕ
  | .entry obs => some obs.slot
  | _ => none

/-- The entry drops what is counted for the slot. -/
def Evicts (slot : ℕ) (s : State) : Input → Prop
  | .entry obs => s.slotStates.entries.length > 4096 ∧ (slot + 200) % 2 ^ 64 < obs.slot ∧
      (s.slotStates.lookup slot).isSome
  | _ => False

instance (slot : ℕ) (s : State) (i : Input) : Decidable (Evicts slot s i) :=
  match i with
  | .entry _ => inferInstanceAs (Decidable (_ ∧ _ ∧ _))
  | .poolInsert _ _ => inferInstanceAs (Decidable False)
  | .poolRemove _ => inferInstanceAs (Decidable False)
  | .pendingSig _ => inferInstanceAs (Decidable False)
  | .forgetSig _ => inferInstanceAs (Decidable False)

/-- The entries of a slot come in their order from the first one on, some of them again, but not
before every other entry. As long as there are more to come, nothing evicts the slot. -/
structure Streams (sched : TickSchedule) (slot : PohSlot) (is : List Input) : Prop where
  order : ∃ l, l <+: slot.entries ∧ Repeats l (is.filterMap (Input.entryOf? slot.slot))
  warm : (is.filterMap Input.slot?).head? ≠ some slot.slot
  kept : ∀ pre i post, is = pre ++ i :: post →
    (∃ j ∈ i :: post, (j.entryOf? slot.slot).isSome) →
      ¬Evicts slot.slot ((machine sched).run {} pre).1 i

section

variable {slot : PohSlot} {sched : TickSchedule} {s : State} {i : Input} {is : List Input}
  {obs : EntryObservation} {ev : MatchEvent}

/-! ## The first slot -/

theorem onTick_firstSlotSeen (tickVal : ℕ) :
    (onTick sched s obs tickVal).1.firstSlotSeen = s.firstSlotSeen := by
  unfold onTick
  split
  · rfl
  · unfold fire
    split
    · split <;> rfl
    · rfl

theorem countEntry_firstSlotSeen :
    (countEntry sched s obs).1.firstSlotSeen = s.firstSlotSeen := by
  unfold countEntry
  dsimp only
  split
  · rfl
  · split
    · exact onTick_firstSlotSeen _
    · rfl

theorem firstSlotSeen_step : ((machine sched).step s i).1.firstSlotSeen =
    s.firstSlotSeen.or i.slot? := by
  cases i with
  | entry obs =>
    change (processEntry sched s obs).1.firstSlotSeen = s.firstSlotSeen.or (some obs.slot)
    have hentered : (s.entered obs.slot).firstSlotSeen = s.firstSlotSeen.or (some obs.slot) := by
      unfold State.entered
      cases s.firstSlotSeen <;> rfl
    cases hwarm : s.inWarmup obs.slot with
    | true => rw [processEntry_of_warmup hwarm, hentered]
    | false => rw [processEntry_of_counted hwarm, countEntry_firstSlotSeen, hentered]
  | poolInsert key tx => exact Option.or_none.symm
  | poolRemove key => exact Option.or_none.symm
  | pendingSig sig => exact Option.or_none.symm
  | forgetSig sig => exact Option.or_none.symm

theorem firstSlotSeen_run :
    ((machine sched).run {} is).1.firstSlotSeen = (is.filterMap Input.slot?).head? := by
  induction is using List.reverseRecOn with
  | nil => rfl
  | append_singleton is i ih =>
    rw [EventMachine.run_snoc_fst, firstSlotSeen_step, ih, List.filterMap_append, List.head?_append]
    cases i <;> rfl

/-- An entry of another slot than that of the first entry is counted. -/
theorem inWarmup_of_head
    (h : (is.filterMap Input.slot?).head?.or ([i].filterMap Input.slot?).head? ≠ some slot.slot)
    (hentry : (i.entryOf? slot.slot).isSome) :
    ((machine sched).run {} is).1.inWarmup slot.slot = false := by
  unfold State.inWarmup
  rw [firstSlotSeen_run]
  cases hhead : (is.filterMap Input.slot?).head? with
  | none =>
    cases i with
    | entry obs =>
      unfold Input.entryOf? at hentry
      dsimp only at hentry
      split at hentry
      · rename_i hslot
        rw [hhead, Option.none_or] at h
        exact absurd (congrArg some hslot) h
      · cases hentry
    | poolInsert key tx => cases hentry
    | poolRemove key => cases hentry
    | pendingSig sig => cases hentry
    | forgetSig sig => cases hentry
  | some first =>
    rw [hhead, Option.some_or] at h
    have hne : first ≠ slot.slot := fun heq => h (congrArg some heq)
    simp [hne]

/-! ## Counting -/

theorem slotState_prune (h : ¬Evicts slot.slot s (.entry obs)) :
    (prune s obs.slot).slotState slot.slot = s.slotState slot.slot := by
  unfold prune State.slotState
  split
  · rename_i hmany
    rw [AList.lookup_retain]
    cases hlookup : s.slotStates.lookup slot.slot with
    | none => rfl
    | some st =>
      have hnear : (slot.slot + 200) % 2 ^ 64 ≥ obs.slot := by
        by_contra hfar
        exact h ⟨hmany, Nat.lt_of_not_le hfar, by rw [hlookup]; rfl⟩
      rw [Option.filter_some, if_pos (decide_eq_true hnear)]
  · rfl

/-- The count of the slot goes on with each of its entries. -/
theorem counter_step (hweighed : Weighed tickRule slot.entries (s.counter slot.slot))
    (hdelivers : ∀ e ∈ i.entryOf? slot.slot, e ∈ slot.entries) (hkept : ¬Evicts slot.slot s i)
    (hwarm : (i.entryOf? slot.slot).isSome → s.inWarmup slot.slot = false) :
    ((machine sched).step s i).1.counter slot.slot =
      match i.entryOf? slot.slot with
      | some e => (tickRule.take (s.counter slot.slot) e).1
      | none => s.counter slot.slot := by
  cases i with
  | entry obs =>
    have hentered : (s.entered obs.slot).slotState slot.slot = s.slotState slot.slot :=
      slotState_prune hkept
    change (processEntry sched s obs).1.counter slot.slot = _
    unfold Input.entryOf? at hdelivers hwarm ⊢
    dsimp only at hdelivers hwarm ⊢
    by_cases hslot : obs.slot = slot.slot
    · rw [if_pos hslot] at hdelivers hwarm ⊢
      have hcounted : s.inWarmup obs.slot = false := hslot ▸ hwarm rfl
      rw [processEntry_of_counted hcounted]
      unfold State.counter at hweighed ⊢
      dsimp only
      rw [slotState_countEntry, hentered]
      by_cases hmem : obs.entryHash ∈ (s.slotState slot.slot).seenEntries
      · rw [if_neg fun h => h.2 hmem, take_of_mem (R := tickRule) hmem]
      · rw [if_pos ⟨hslot, hmem⟩]
        exact (observe_refines hweighed (hdelivers _ rfl) hmem).1
    · rw [if_neg hslot]
      dsimp only
      unfold State.counter
      cases hfirst : s.inWarmup obs.slot with
      | true => rw [processEntry_of_warmup hfirst, hentered]
      | false =>
        rw [processEntry_of_counted hfirst]
        dsimp only
        rw [slotState_countEntry, if_neg fun h => hslot h.1, hentered]
  | poolInsert key tx => rfl
  | poolRemove key => rfl
  | pendingSig sig => rfl
  | forgetSig sig => rfl

theorem counter_run (hdelivers : Delivers slot is)
    (hkept : (machine sched).Along (fun s i => ¬Evicts slot.slot s i) {} is)
    (hwarm : (is.filterMap Input.slot?).head? ≠ some slot.slot) :
    ((machine sched).run {} is).1.counter slot.slot =
      (tickRule.machine.run {} (is.filterMap (Input.entryOf? slot.slot))).1 := by
  induction is using List.reverseRecOn with
  | nil => rfl
  | append_singleton is i ih =>
    have hpre : Delivers slot is := fun j hj => hdelivers j (List.mem_append_left _ hj)
    obtain ⟨hbefore, hlast⟩ := EverySplit.snoc_iff.mp hkept
    rw [List.filterMap_append, List.head?_append] at hwarm
    have hwarm' : (is.filterMap Input.slot?).head? ≠ some slot.slot := fun h =>
      hwarm (by rw [h, Option.some_or])
    have hcount := ih hpre hbefore hwarm'
    have hweighed : Weighed tickRule slot.entries
        (((machine sched).run {} is).1.counter slot.slot) :=
      weighed_run hpre (weighed_start tickRule slot.entries)
    rw [EventMachine.run_snoc_fst, counter_step hweighed (hdelivers i (by simp)) hlast
      (inWarmup_of_head hwarm), hcount, List.filterMap_append]
    cases he : i.entryOf? slot.slot with
    | none => simp [he]
    | some e => simp [he, WindowRule.machine]

/-! ## Match events -/

theorem matched_notMem_countEntry : .send (.matched ev) ∉ (countEntry sched s obs).2.1 := by
  intro h
  unfold countEntry at h
  dsimp only at h
  split at h
  · cases h
  · split at h
    · unfold onTick fire at h
      dsimp only at h
      split at h
      · simp at h
      · split at h
        · split at h <;> simp at h
        · simp at h
    · split at h <;> simp at h

/-- After it is counted, or known, an entry has a state of its slot to be matched in. -/
theorem lookup_countEntry : (countEntry sched s obs).1.slotStates.lookup obs.slot =
    some ((countEntry sched s obs).1.slotState obs.slot) := by
  have hsome : ((countEntry sched s obs).1.slotStates.lookup obs.slot).isSome := by
    unfold countEntry
    dsimp only
    split
    · rename_i hmem
      unfold State.slotState at hmem
      cases hlookup : s.slotStates.lookup obs.slot with
      | none =>
        rw [hlookup] at hmem
        exact absurd hmem (Finset.notMem_empty _)
      | some st => rfl
    · split
      · rw [onTick_slotStates, AList.lookup_insert]
        rfl
      · rw [AList.lookup_insert]
        rfl
  obtain ⟨st, hst⟩ := Option.isSome_iff_exists.mp hsome
  unfold State.slotState
  rw [hst]
  rfl

theorem matched_of_sigMatch {s' : State} (h : .send (.matched ev) ∈ sigMatch s' obs) :
    ev.observedSlot = obs.slot ∧
      ev.observedTickInSlot = (s'.slotStates.lookup obs.slot).map SlotState.tickIdx ∧
        ev.observedCumulativeHashesInSlot =
          (s'.slotStates.lookup obs.slot).map SlotState.cumulativeHashesInSlot := by
  obtain ⟨sig, -, heq⟩ := List.mem_map.mp h
  cases heq
  exact ⟨rfl, rfl, rfl⟩

/-- A match event carries the count of its slot with its entry in it. -/
theorem matched_of_step (h : .send (.matched ev) ∈ ((machine sched).step s i).2)
    (hslot : ev.observedSlot = slot.slot) : (i.entryOf? slot.slot).isSome ∧
      (s.inWarmup slot.slot = false →
        ev.observedTickInSlot = some (((machine sched).step s i).1.counter slot.slot).closed ∧
          ev.observedCumulativeHashesInSlot =
            some (((machine sched).step s i).1.counter slot.slot).total) := by
  cases i with
  | entry obs =>
    change _ ∈ (processEntry sched s obs).2 at h
    change (Input.entryOf? slot.slot (.entry obs)).isSome ∧ (_ →
      ev.observedTickInSlot = some ((processEntry sched s obs).1.counter slot.slot).closed ∧
        ev.observedCumulativeHashesInSlot =
          some ((processEntry sched s obs).1.counter slot.slot).total)
    have hown : obs.slot = slot.slot → (Input.entryOf? slot.slot (.entry obs)).isSome := fun h =>
      Option.isSome_iff_exists.mpr ⟨obs.pohEntry, if_pos h⟩
    cases hfirst : s.inWarmup obs.slot with
    | true =>
      rw [processEntry_of_warmup hfirst] at h
      have hobs : obs.slot = slot.slot := (matched_of_sigMatch h).1.symm.trans hslot
      refine ⟨hown hobs, fun hcounted => ?_⟩
      rw [← hobs, hfirst] at hcounted
      cases hcounted
    | false =>
      rw [processEntry_of_counted hfirst] at h ⊢
      rcases List.mem_append.mp h with hcount | hmatch
      · exact absurd hcount matched_notMem_countEntry
      · split at hmatch
        · obtain ⟨hev, htick, hhashes⟩ := matched_of_sigMatch hmatch
          rw [lookup_countEntry] at htick hhashes
          have hobs : obs.slot = slot.slot := hev.symm.trans hslot
          refine ⟨hown hobs, fun _ => ?_⟩
          rw [← hobs]
          exact ⟨htick, hhashes⟩
        · cases hmatch
  | poolInsert key tx => cases h
  | poolRemove key => cases h
  | pendingSig sig => cases h
  | forgetSig sig => cases h

/-! ## Streams in order -/

theorem Streams.delivers (h : Streams sched slot is) : Delivers slot is := by
  obtain ⟨l, hl, horder⟩ := h.order
  exact fun i hi e he => hl.subset (horder.mem e (List.mem_filterMap.mpr ⟨i, hi, he⟩))

/-- Up to an entry of the slot it is a stream that nothing evicts. -/
theorem Streams.upTo {pre post : List Input} (h : Streams sched slot (pre ++ i :: post))
    (hentry : (i.entryOf? slot.slot).isSome) : Streams sched slot (pre ++ [i]) ∧
      (machine sched).Along (fun s i => ¬Evicts slot.slot s i) {} (pre ++ [i]) := by
  have hsplit : pre ++ i :: post = (pre ++ [i]) ++ post := by simp
  have hkept : (machine sched).Along (fun s i => ¬Evicts slot.slot s i) {} (pre ++ [i]) := by
    intro before j after heq
    have hmem : i ∈ j :: after := by
      have hlast : (pre ++ [i]).getLast? = some i := List.getLast?_concat
      rw [heq, List.getLast?_append_cons] at hlast
      exact List.mem_of_getLast? hlast
    exact h.kept before j (after ++ post) (by rw [hsplit, heq]; simp)
      ⟨i, List.mem_append_left post hmem, hentry⟩
  obtain ⟨l, hl, horder⟩ := h.order
  have hwarm := h.warm
  rw [hsplit, List.filterMap_append] at horder hwarm
  obtain ⟨seen, hseen, hcame⟩ := horder.of_append
  refine ⟨⟨⟨seen, hseen.trans hl, hcame⟩, fun heq => hwarm ?_,
    fun before j after heq _ => hkept before j after heq⟩, hkept⟩
  rw [List.head?_append, heq, Option.some_or]

/-- Between two entries of the slot less than a tick is open. -/
theorem Streams.counter (h : Streams sched slot is)
    (hkept : (machine sched).Along (fun s i => ¬Evicts slot.slot s i) {} is)
    (hpos : ∀ e ∈ slot.entries, 1 ≤ e.numHashes) {c : WindowCount Hash}
    (hc : ((machine sched).run {} is).1.counter slot.slot = c) :
    c.total = 62_500 * c.closed + c.weight ∧ c.weight < 62_500 ∧ c.closed ≤ 64 := by
  have hweighed : Weighed tickRule slot.entries (((machine sched).run {} is).1.counter slot.slot) :=
    weighed_run h.delivers (weighed_start tickRule slot.entries)
  obtain ⟨l, hl, horder⟩ := h.order
  have hopen : (((machine sched).run {} is).1.counter slot.slot).weight < 62_500 := by
    rw [counter_run h.delivers hkept h.warm, run_repeats horder]
    refine weight_run_lt (Nat.succ_pos _) slot.ticks {} rfl (fun w hw => ?_) (by simp) slot.nodup hl
    exact hpos w.close (List.mem_flatMap.mpr ⟨w, hw, List.mem_append_right _ (by simp)⟩)
  rw [hc] at hweighed hopen
  have hwindows : c.total = 62_500 * c.closed + c.weight := hweighed.windows
  have htotal := slot.total_le hweighed
  exact ⟨hwindows, hopen, by omega⟩

/-- The match events of a slot that comes in order carry a tick and hashes of one place. -/
theorem match_inTick (hstream : Streams sched slot is) (hpos : ∀ e ∈ slot.entries, 1 ≤ e.numHashes)
    (h : .send (.matched ev) ∈ ((machine sched).run {} is).2) (hslot : ev.observedSlot = slot.slot) :
    ∃ tick hashes, ev.InTick tick hashes := by
  obtain ⟨pre, i, post, rfl, hstep⟩ := EventMachine.exists_step_of_mem_run _ h
  obtain ⟨hentry, hcount⟩ := matched_of_step hstep hslot
  obtain ⟨hupTo, hkept⟩ := hstream.upTo hentry
  have hwarm := hupTo.warm
  rw [List.filterMap_append, List.head?_append] at hwarm
  obtain ⟨htick, hhashes⟩ := hcount (inWarmup_of_head hwarm hentry)
  rw [← EventMachine.run_snoc_fst] at htick hhashes
  obtain ⟨hwindows, hopen, hclosed⟩ := hupTo.counter hkept hpos rfl
  exact ⟨_, _, htick, hhashes, hclosed, by omega, by omega⟩

end

end Observer
end SolanaBench.TickTriggerBench
