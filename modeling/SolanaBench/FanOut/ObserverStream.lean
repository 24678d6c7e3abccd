import SolanaBench.FanOut.ObserverTicks

/-! A slot that comes whole and in order: the fan-out observer numbers each of its ticks and
fires the scheduled ones, each once. -/
namespace SolanaBench.FanOut.Observer

open WindowRule

def Input.slot? : Input → Option ℕ
  | .entry m _ => some m.observation.slot
  | .timeout _ => none
  | .pendingSig _ => none

/-- Before its last entry comes, no slot more than 64 above it is seen, the one that the run
starts at included. -/
def InReach (slot currentSlot : ℕ) (is : List Input) : Prop :=
  EverySplit (fun pre i => (i.entryOf? slot).isSome →
    ∀ k ∈ currentSlot :: pre.filterMap Input.slot?, k ≤ slot + 64) is

section

variable {slot : PohSlot} {sched : TickSchedule} {s : State} {i : Input} {is : List Input}
  {now : Instant} {currentSlot bound : ℕ} {cache : Option SlotHashCache}

theorem currentSlot_processEntry (m : MergedEntry) :
    (processEntry sched s m now).1.currentSlot = s.currentSlot := by
  unfold processEntry
  dsimp only
  split <;> rfl

theorem currentSlot_advance (k : ℕ) : (advance s k).currentSlot = max s.currentSlot k := by
  unfold advance
  split
  · exact (max_eq_right (Nat.le_of_lt ‹_›)).symm
  · exact (max_eq_left (by omega)).symm

/-- The highest slot so far. -/
theorem currentSlot_step : ((machine sched).step s i).1.currentSlot =
    match i.slot? with
    | some k => max s.currentSlot k
    | none => s.currentSlot := by
  cases i with
  | entry m now =>
    change (maybeEvictOldSlots (advance (processEntry sched s m now).1 m.observation.slot)
      now).currentSlot = max s.currentSlot m.observation.slot
    rw [currentSlot_evict, currentSlot_advance, currentSlot_processEntry]
  | timeout now => exact currentSlot_evict
  | pendingSig sig => rfl

theorem currentSlot_mono : s.currentSlot ≤ ((machine sched).step s i).1.currentSlot := by
  rw [currentSlot_step]
  cases i.slot? with
  | none => exact Nat.le_refl _
  | some k => exact Nat.le_max_left ..

theorem currentSlot_run_le (h : ∀ k ∈ currentSlot :: is.filterMap Input.slot?, k ≤ bound) :
    ((machine sched).run (start currentSlot now cache) is).1.currentSlot ≤ bound := by
  induction is using List.reverseRecOn with
  | nil => exact h currentSlot List.mem_cons_self
  | append_singleton is i ih =>
    rw [List.filterMap_append, ← List.cons_append] at h
    have hprev := ih fun k hk => h k (List.mem_append_left _ hk)
    rw [EventMachine.run_snoc_fst, currentSlot_step]
    cases hslot : i.slot? with
    | none => exact hprev
    | some k => exact max_le hprev (h k (List.mem_append_right _ (by simp [hslot])))

/-- As long as no slot far above it is seen, the count of a slot is that of all that came. -/
theorem counter_run (hdelivers : Delivers slot is)
    (hreach : ((machine sched).run (start currentSlot now cache) is).1.currentSlot ≤ slot.slot + 64) :
    ((machine sched).run (start currentSlot now cache) is).1.counter slot.slot =
      (tickRule.machine.run {} (is.filterMap (Input.entryOf? slot.slot))).1 := by
  induction is using List.reverseRecOn with
  | nil => rfl
  | append_singleton is i ih =>
    have hpre : Delivers slot is := fun j hj => hdelivers j (List.mem_append_left _ hj)
    rw [EventMachine.run_snoc_fst] at hreach ⊢
    have hcount := ih hpre (currentSlot_mono.trans hreach)
    rcases counter_step (weighed_at currentSlot cache hpre) (hdelivers i (by simp)) with
      ⟨hfar, -⟩ | hkeep
    · exact absurd hreach (Nat.not_le.mpr hfar)
    · rw [hkeep, List.filterMap_append, hcount]
      cases he : i.entryOf? slot.slot with
      | none => simp [he]
      | some e => simp [he, WindowRule.machine]

/-- The numbers that a slot's entries get are those of the count of all that came. -/
theorem readings_run (hdelivers : Delivers slot is) (hreach : InReach slot.slot currentSlot is) :
    (machine sched).readings (numbered sched slot.slot) (start currentSlot now cache) is =
      (tickRule.machine.run {} (is.filterMap (Input.entryOf? slot.slot))).2 := by
  induction is using List.reverseRecOn with
  | nil => rfl
  | append_singleton is i ih =>
    have hpre : Delivers slot is := fun j hj => hdelivers j (List.mem_append_left _ hj)
    obtain ⟨hbefore, hlast⟩ := EverySplit.snoc_iff.mp hreach
    rw [EventMachine.readings_snoc, ih hpre hbefore,
      numbered_eq (weighed_at currentSlot cache hpre) (hdelivers i (by simp)),
      List.filterMap_append, EventMachine.run_append_snd]
    cases he : i.entryOf? slot.slot with
    | none => simp [he]
    | some e =>
      rw [counter_run hpre (currentSlot_run_le (hlast (by rw [he]; rfl)))]
      simp [he]

/-- The triggers of a run are the numbered ticks that are scheduled. -/
theorem triggers_run (k : ℕ) :
    (((triggers ((machine sched).run (start currentSlot now cache) is).2).filter
        fun ev => ev.slot = k).map fun ev => (ev.tick, ev.cumulativeHashesInSlot)) =
      (((machine sched).readings (numbered sched k) (start currentSlot now cache) is).filter
        fun x => decide ((k, x.2.1) ∈ sched)).map Prod.snd := by
  induction is using List.reverseRecOn with
  | nil => rfl
  | append_singleton is i ih =>
    rw [EventMachine.run_snoc_snd, triggers_append, List.filter_append, List.map_append, ih,
      triggers_step (firedPast_run (firedPast_start currentSlot cache) is),
      EventMachine.readings_snoc, List.filter_append, List.map_append]

end

/-- A slot that comes whole and in order, with entries that come again and other slots in
between: each tick is detected once, by the entry that closes it, and fired if it is scheduled. -/
theorem complete_stream (sched : TickSchedule) (slot : PohSlot) (currentSlot : ℕ) (now : Instant)
    (cache : Option SlotHashCache) (is : List Input)
    (hstream : Repeats slot.entries (is.filterMap (Input.entryOf? slot.slot)))
    (hreach : InReach slot.slot currentSlot is) :
    (machine sched).readings (numbered sched slot.slot) (start currentSlot now cache) is =
        slot.ticks.zipIdx.map (fun t => (t.1.close, t.2 + 1, 62_500 * (t.2 + 1))) ∧
      (((triggers ((machine sched).run (start currentSlot now cache) is).2).filter
          fun ev => ev.slot = slot.slot).map fun ev => (ev.tick, ev.cumulativeHashesInSlot)) =
        ((List.range' 1 64).filter fun n => (slot.slot, n) ∈ sched).map
          fun n => (n, 62_500 * n) := by
  have hdelivers : Delivers slot is := fun i hi e he =>
    hstream.mem e (List.mem_filterMap.mpr ⟨i, hi, he⟩)
  have hnumbers : (machine sched).readings (numbered sched slot.slot)
      (start currentSlot now cache) is =
        slot.ticks.zipIdx.map fun t => (t.1.close, t.2 + 1, 62_500 * (t.2 + 1)) := by
    rw [readings_run hdelivers hreach, run_repeats hstream]
    have hruns := run_windows slot.ticks {} rfl (by simp) slot.nodup
    simp only [Nat.zero_add] at hruns
    exact hruns
  refine ⟨hnumbers, ?_⟩
  have hticks : (slot.ticks.zipIdx.map Prod.snd).map Nat.succ = List.range' 1 64 := by
    rw [List.zipIdx_map_snd, slot.length_ticks]
    rfl
  rw [triggers_run, hnumbers, ← hticks]
  simp only [List.filter_map, List.map_map]
  rfl

/-- Slot 7 after an entry of slot 8, its first tick coming again at the end. -/
def emptySlotStream : List Input :=
  .entry ⟨tickEntry 8 0, .shredStream⟩ 0 ::
    ((List.range 64).map fun k => .entry ⟨tickEntry 7 k, .shredStream⟩ k) ++
      [.entry ⟨tickEntry 7 0, .yellowstone⟩ 64]

theorem delivered_emptySlotStream : emptySlotStream.filterMap (Input.entryOf? 7) =
    emptySlot.entries ++ [(tickEntry 7 0).pohEntry] := by
  have hticks : ((List.range 64).map fun k =>
      Input.entry ⟨tickEntry 7 k, .shredStream⟩ k).filterMap (Input.entryOf? 7) =
        emptySlot.entries := by
    rw [List.filterMap_map, entries_emptySlot]
    exact List.filterMap_eq_map_iff_forall_eq_some.mpr fun k _ => rfl
  unfold emptySlotStream
  rw [List.filterMap_append, List.filterMap_cons_none (by rfl), hticks]
  rfl

theorem slot_emptySlotStream : ∀ i ∈ emptySlotStream, ∀ k ∈ i.slot?, k ≤ 8 := by
  intro i hi k hk
  rcases List.mem_append.mp hi with hfirst | hagain
  · rcases List.mem_cons.mp hfirst with rfl | htick
    · cases hk
      exact Nat.le_refl 8
    · obtain ⟨n, -, rfl⟩ := List.mem_map.mp htick
      cases hk
      exact Nat.le_succ 7
  · rw [List.mem_singleton.mp hagain] at hk
    cases hk
    decide

/-- Of slot 7 one tick is scheduled. -/
theorem complete_stream_again :
    ((triggers ((machine {(7, 3), (8, 2)}).run (start 7 0 none) emptySlotStream).2).filter
      fun ev => ev.slot = 7).map (fun ev => (ev.tick, ev.cumulativeHashesInSlot)) =
        [(3, 187_500)] := by
  have hstream : Repeats emptySlot.entries
      (emptySlotStream.filterMap (Input.entryOf? emptySlot.slot)) := by
    have hfirst : (tickEntry 7 0).pohEntry ∈ emptySlot.entries := by
      rw [entries_emptySlot]
      exact List.mem_map_of_mem (List.mem_range.mpr (by decide))
    exact delivered_emptySlotStream ▸ Repeats.again (Repeats.refl _) hfirst
  have hreach : InReach emptySlot.slot 7 emptySlotStream := by
    intro pre i post hsplit _ k hk
    rcases List.mem_cons.mp hk with rfl | hk
    · decide
    · obtain ⟨j, hj, hslot⟩ := List.mem_filterMap.mp hk
      have hmem : j ∈ emptySlotStream := by
        rw [hsplit]
        exact List.mem_append_left _ hj
      exact (slot_emptySlotStream j hmem k hslot).trans (by decide)
  exact (complete_stream {(7, 3), (8, 2)} emptySlot 7 0 none emptySlotStream hstream
    hreach).2.trans (by decide)

end SolanaBench.FanOut.Observer
