import SolanaBench.FanOut.ObserverTicks
import SolanaBench.Lib.AListEach
import SolanaBench.TickTriggerBench.Observer

/-! The tick numbers of the observer against the proof of history of a slot. -/
namespace SolanaBench.TickTriggerBench.Observer

open WindowRule

/-- The part of a slot's state that numbers its ticks. -/
def SlotState.counter (st : SlotState) : WindowCount Hash where
  closed := st.tickIdx
  weight := st.hashCount
  total := st.cumulativeHashesInSlot
  seen := st.seenEntries

def State.counter (s : State) (slot : ℕ) : WindowCount Hash := (s.slotState slot).counter

/-- The entry of the slot that the input brings. -/
def Input.entryOf? (slot : ℕ) : Input → Option PohEntry
  | .entry obs => if obs.slot = slot then some obs.pohEntry else none
  | _ => none

/-- What comes for the slot are entries of it, in any order and any number. -/
def Delivers (slot : PohSlot) (is : List Input) : Prop :=
  ∀ i ∈ is, ∀ e ∈ i.entryOf? slot.slot, e ∈ slot.entries

/-- An entry with a number closes that tick of the slot, and so does one that sends the
transaction of a tick. -/
def Sound (sched : TickSchedule) (slot : PohSlot) (s : State) (i : Input) : Prop :=
  (∀ x ∈ numbered slot.slot s i, slot.closing x.2 = some x.1) ∧
    ∀ cmd, .send (.command cmd) ∈ ((machine sched).step s i).2 → cmd.scheduleSlot = slot.slot →
      ∃ e ∈ i.entryOf? slot.slot, slot.closing cmd.scheduleTick = some e

/-- A tick entry that comes with the hashes of a whole tick, after the first slot, is in place. -/
def InPlace (slot : PohSlot) (s : State) (i : Input) : Prop :=
  s.inWarmup slot.slot = false → ∀ e ∈ i.entryOf? slot.slot,
    tickRule.Completes ((prune s slot.slot).counter slot.slot) e →
      slot.InPlace ((prune s slot.slot).counter slot.slot) e

section

variable {slot : PohSlot} {sched : TickSchedule} {st : SlotState} {s : State} {i : Input}
  {obs : EntryObservation}

/-- Below the hashes of a slot nothing saturates, and the state counts windows. -/
theorem observe_refines (hweighed : Weighed tickRule slot.entries st.counter)
    (hobs : obs.pohEntry ∈ slot.entries) (hnew : obs.entryHash ∉ st.seenEntries) :
    (st.observe obs).1.counter = (tickRule.take st.counter obs.pohEntry).1 ∧
      (st.observe obs).2 = (tickRule.take st.counter obs.pohEntry).2 := by
  have hnext := hweighed.take slot.nodup hobs
  have htotal : st.cumulativeHashesInSlot + obs.numHashes ≤ 62_500 * 64 :=
    (total_take (R := tickRule) (c := st.counter) (x := obs.pohEntry) hnew).ge.trans
      (slot.total_le hnext)
  have hweight : st.cumulativeHashesInSlot = 62_500 * st.tickIdx + st.hashCount :=
    hweighed.windows
  have hcumulative : satAddU64 st.cumulativeHashesInSlot obs.numHashes =
      st.cumulativeHashesInSlot + obs.numHashes := min_eq_left (by unfold U64.MAX; omega)
  have hcount : satAddU64 st.hashCount obs.numHashes = st.hashCount + obs.numHashes :=
    min_eq_left (by unfold U64.MAX; omega)
  have hidx : satAddU8 st.tickIdx 1 = st.tickIdx + 1 := min_eq_left (by omega)
  by_cases hcompletes : tickRule.Completes st.counter obs.pohEntry
  · have htx : obs.txCount = 0 := eq_of_beq hcompletes.2.1
    have hsize : st.hashCount + obs.numHashes = HASHES_PER_TICK := hcompletes.2.2
    rw [take_of_completes hcompletes]
    unfold SlotState.observe
    dsimp only
    rw [if_pos ⟨htx, hcount.trans hsize⟩]
    simp [SlotState.counter, SlotState.add, hidx, hcumulative, EntryObservation.pohEntry, tickRule]
  · have hnot : ¬(obs.txCount = 0 ∧ (st.add obs).hashCount = HASHES_PER_TICK) := fun h =>
      hcompletes ⟨hnew, beq_of_eq h.1, hcount.symm.trans h.2⟩
    rw [take_of_not_completes hnew hcompletes]
    unfold SlotState.observe
    dsimp only
    rw [if_neg hnot]
    simp [SlotState.counter, SlotState.add, hcumulative, hcount, EntryObservation.pohEntry, tickRule]

/-- A slot that is dropped starts anew. -/
theorem slotState_prune_or (k k' : ℕ) :
    (prune s k).slotState k' = s.slotState k' ∨ (prune s k).slotState k' = {} := by
  unfold prune State.slotState
  split
  · rw [AList.lookup_retain]
    cases s.slotStates.lookup k' with
    | none => exact Or.inl rfl
    | some st =>
      rw [Option.filter_some]
      split
      · exact Or.inl rfl
      · exact Or.inr rfl
  · exact Or.inl rfl

theorem onTick_slotStates (tickVal : ℕ) :
    (onTick sched s obs tickVal).1.slotStates = s.slotStates := by
  unfold onTick
  split
  · rfl
  · unfold fire
    split
    · split <;> rfl
    · rfl

/-- An entry changes the state of its own slot, and a known one no state at all. -/
theorem slotState_countEntry (k : ℕ) : (countEntry sched s obs).1.slotState k =
    if obs.slot = k ∧ obs.entryHash ∉ (s.slotState k).seenEntries then
      ((s.slotState k).observe obs).1
    else s.slotState k := by
  unfold countEntry
  dsimp only
  by_cases hmem : obs.entryHash ∈ (s.slotState obs.slot).seenEntries
  · rw [if_pos hmem, if_neg]
    rintro ⟨rfl, hnew⟩
    exact hnew hmem
  · rw [if_neg hmem]
    have hstate : ∀ s' : State, s'.slotStates =
        s.slotStates.insert obs.slot ((s.slotState obs.slot).observe obs).1 →
        s'.slotState k = if obs.slot = k ∧ obs.entryHash ∉ (s.slotState k).seenEntries then
          ((s.slotState k).observe obs).1 else s.slotState k := by
      intro s' hs'
      unfold State.slotState at hmem hs' ⊢
      rw [hs', AList.lookup_insert_eq]
      by_cases hslot : obs.slot = k
      · subst hslot
        simp [hmem]
      · simp [hslot, Ne.symm hslot]
    split
    · exact hstate _ (onTick_slotStates _)
    · exact hstate _ rfl

theorem counter_prune_weighed (k : ℕ) (h : Weighed tickRule slot.entries (s.counter slot.slot)) :
    Weighed tickRule slot.entries ((prune s k).counter slot.slot) := by
  unfold State.counter at h ⊢
  rcases @slotState_prune_or s k slot.slot with hkeep | hdrop
  · rw [hkeep]
    exact h
  · rw [hdrop]
    exact weighed_start tickRule slot.entries

/-- The state in which the entry is counted. -/
def State.entered (s : State) (k : ℕ) : State :=
  { prune s k with
    currentSlot := k
    firstSlotSeen := some (s.firstSlotSeen.getD k) }

theorem entered_inWarmup (k : ℕ) : (s.entered k).inWarmup k = s.inWarmup k := by
  unfold State.inWarmup State.entered
  cases s.firstSlotSeen <;> simp

theorem processEntry_of_warmup (h : s.inWarmup obs.slot = true) :
    processEntry sched s obs = (s.entered obs.slot, sigMatch (s.entered obs.slot) obs) :=
  if_pos ((@entered_inWarmup s obs.slot).trans h)

theorem processEntry_of_counted (h : s.inWarmup obs.slot = false) :
    processEntry sched s obs = ((countEntry sched (s.entered obs.slot) obs).1,
      (countEntry sched (s.entered obs.slot) obs).2.1 ++
        if (countEntry sched (s.entered obs.slot) obs).2.2 then
          sigMatch (countEntry sched (s.entered obs.slot) obs).1 obs else []) :=
  if_neg (by
    change ¬(s.entered obs.slot).inWarmup obs.slot = true
    rw [entered_inWarmup, h]
    exact Bool.false_ne_true)

theorem weighed_step (h : Weighed tickRule slot.entries (s.counter slot.slot))
    (hdelivers : ∀ e ∈ i.entryOf? slot.slot, e ∈ slot.entries) :
    Weighed tickRule slot.entries (((machine sched).step s i).1.counter slot.slot) := by
  cases i with
  | entry obs =>
    have hpruned : Weighed tickRule slot.entries ((s.entered obs.slot).counter slot.slot) :=
      counter_prune_weighed obs.slot h
    change Weighed tickRule slot.entries ((processEntry sched s obs).1.counter slot.slot)
    cases hwarm : s.inWarmup obs.slot with
    | true =>
      rw [processEntry_of_warmup hwarm]
      exact hpruned
    | false =>
      rw [processEntry_of_counted hwarm]
      unfold State.counter
      dsimp only
      rw [slotState_countEntry]
      split
      · rename_i hnew
        have hobs := hdelivers obs.pohEntry (if_pos hnew.1)
        rw [(observe_refines hpruned hobs hnew.2).1]
        exact hpruned.take slot.nodup hobs
      · exact hpruned
  | poolInsert key tx => exact h
  | poolRemove key => exact h
  | pendingSig sig => exact h
  | forgetSig sig => exact h

theorem command_of_onTick {tickVal : ℕ} {cmd : SendCommand}
    (h : .send (.command cmd) ∈ (onTick sched s obs tickVal).2.1) :
    cmd.scheduleSlot = obs.slot ∧ cmd.scheduleTick = tickVal := by
  unfold onTick fire at h
  split at h
  · simp at h
  · split at h
    · split at h
      · rename_i tx _
        have hcmd : cmd = ⟨tx, obs.slot, tickVal, obs.observedAt⟩ := by simpa using h
        rw [hcmd]
        exact ⟨rfl, rfl⟩
      · simp at h
    · simp at h

/-- Commands are sent for the numbered tick of the entry only. -/
theorem command_of_step {cmd : SendCommand}
    (h : .send (.command cmd) ∈ ((machine sched).step s i).2) :
    ∃ obs, i = .entry obs ∧ obs.slot = cmd.scheduleSlot ∧
      (obs.pohEntry, cmd.scheduleTick) ∈ numbered obs.slot s i := by
  cases i with
  | entry obs =>
    refine ⟨obs, rfl, ?_⟩
    have hquiet : ∀ s' : State, .send (.command cmd) ∉ sigMatch s' obs := by
      intro s' hmem
      obtain ⟨sig, -, heq⟩ := List.mem_map.mp hmem
      cases heq
    change _ ∈ (processEntry sched s obs).2 at h
    cases hwarm : s.inWarmup obs.slot with
    | true =>
      rw [processEntry_of_warmup hwarm] at h
      exact absurd h (hquiet _)
    | false =>
      rw [processEntry_of_counted hwarm] at h
      rcases List.mem_append.mp h with hcount | hmatch
      · unfold countEntry at hcount
        dsimp only at hcount
        split at hcount
        · cases hcount
        · rename_i hnew
          split at hcount
          · rename_i tickVal hnumber
            obtain ⟨hslot, htick⟩ := command_of_onTick hcount
            refine ⟨hslot.symm, ?_⟩
            unfold numbered
            dsimp only
            rw [if_pos ⟨rfl, hwarm, hnew⟩]
            exact List.mem_map.mpr ⟨tickVal, Option.mem_toList.mpr hnumber, by rw [htick]⟩
          · split at hcount <;> simp at hcount
      · split at hmatch
        · exact absurd hmatch (hquiet _)
        · cases hmatch
  | poolInsert key tx => cases h
  | poolRemove key => cases h
  | pendingSig sig => cases h
  | forgetSig sig => cases h

/-- One step numbers rightly exactly if the entry is in place. -/
theorem sound_step_iff (hweighed : Weighed tickRule slot.entries (s.counter slot.slot))
    (hdelivers : ∀ e ∈ i.entryOf? slot.slot, e ∈ slot.entries) :
    Sound sched slot s i ↔ InPlace slot s i := by
  have hpruned := counter_prune_weighed slot.slot hweighed
  have hnumbers : (∀ x ∈ numbered slot.slot s i, slot.closing x.2 = some x.1) ↔
      InPlace slot s i := by
    cases i with
    | entry obs =>
      unfold InPlace numbered Input.entryOf?
      dsimp only
      by_cases hslot : obs.slot = slot.slot
      · rw [if_pos hslot]
        cases hwarm : s.inWarmup slot.slot with
        | true => simp
        | false =>
          have hobs := hdelivers obs.pohEntry (if_pos hslot)
          have hsound := slot.number_sound_iff hpruned hobs
          by_cases hmem : obs.entryHash ∈ ((prune s slot.slot).slotState slot.slot).seenEntries
          · rw [if_neg (fun h => h.2.2 hmem)]
            refine iff_of_true nofun fun _ e he hcompletes => ?_
            cases he
            exact absurd hmem hcompletes.1
          · rw [if_pos ⟨hslot, rfl, hmem⟩, (observe_refines hpruned hobs hmem).2]
            simpa [State.counter] using hsound
      · rw [if_neg hslot, if_neg fun h => hslot h.1]
        exact iff_of_true nofun fun _ => nofun
    | poolInsert key tx => exact iff_of_true nofun fun _ => nofun
    | poolRemove key => exact iff_of_true nofun fun _ => nofun
    | pendingSig sig => exact iff_of_true nofun fun _ => nofun
    | forgetSig sig => exact iff_of_true nofun fun _ => nofun
  refine ⟨fun h => hnumbers.mp h.1, fun h => ⟨hnumbers.mpr h, fun cmd hcmd hslot => ?_⟩⟩
  obtain ⟨obs, rfl, hobs, hmem⟩ := command_of_step hcmd
  rw [hobs, hslot] at hmem
  exact ⟨obs.pohEntry, if_pos (hobs.trans hslot), hnumbers.mpr h _ hmem⟩

theorem weighed_run {is : List Input} (hdelivers : Delivers slot is)
    (h : Weighed tickRule slot.entries (s.counter slot.slot)) :
    Weighed tickRule slot.entries (((machine sched).run s is).1.counter slot.slot) := by
  induction is using List.reverseRecOn with
  | nil => exact h
  | append_singleton is i ih =>
    rw [EventMachine.run_snoc_fst]
    exact weighed_step (ih fun j hj => hdelivers j (List.mem_append_left _ hj))
      (hdelivers i (by simp))

end

/-- Ticks are numbered rightly in a run exactly if every tick entry that comes with the hashes
of a whole tick is in place. -/
theorem numbers_sound_iff (sched : TickSchedule) (slot : PohSlot) (is : List Input)
    (hdelivers : Delivers slot is) :
    (machine sched).Along (Sound sched slot) {} is ↔ (machine sched).Along (InPlace slot) {} is := by
  refine forall₄_congr fun pre i post hsplit => ?_
  subst hsplit
  have hpre : Delivers slot pre := fun j hj => hdelivers j (List.mem_append_left _ hj)
  exact sound_step_iff (weighed_run hpre (weighed_start tickRule slot.entries))
    (hdelivers i (by simp))

/-- Both observers number the ticks of a slot rightly, whatever is lost or comes in another order,
exactly as long as each tick entry that comes with the hashes of a whole tick is in place. -/
theorem observers_sound_iff (slot : PohSlot) :
    (∀ (sched : TickSchedule) (currentSlot : ℕ) (now : Instant) (cache : Option FanOut.SlotHashCache)
        (is : List FanOut.Observer.Input), FanOut.Observer.Delivers slot is →
      ((FanOut.Observer.machine sched).Along (FanOut.Observer.Sound sched slot)
          (FanOut.Observer.start currentSlot now cache) is ↔
        (FanOut.Observer.machine sched).Along (FanOut.Observer.InPlace slot)
          (FanOut.Observer.start currentSlot now cache) is)) ∧
      ∀ (sched : TickSchedule) (is : List Input), Delivers slot is →
        ((machine sched).Along (Sound sched slot) {} is ↔
          (machine sched).Along (InPlace slot) {} is) :=
  ⟨fun sched currentSlot now cache is h =>
    FanOut.Observer.numbers_sound_iff sched slot currentSlot now cache is h,
    fun sched is h => numbers_sound_iff sched slot is h⟩

/-- The first tick of slot 7 comes, in the tick trigger bench after another slot. -/
theorem observers_sound_iff_first_tick :
    (FanOut.Observer.machine {(7, 1)}).Along (FanOut.Observer.Sound {(7, 1)} emptySlot)
        (FanOut.Observer.start 7 0 none) [.entry ⟨tickEntry 7 0, .shredStream⟩ 0] ∧
      (machine {(7, 1)}).Along (Sound {(7, 1)} emptySlot) {}
        [.entry (tickEntry 6 0), .entry (tickEntry 7 0)] := by
  have hhead : emptySlot.entries = (tickEntry 7 0).pohEntry ::
      ((List.range 63).map Nat.succ).map fun k => (tickEntry 7 k).pohEntry := by
    rw [entries_emptySlot, List.range_succ_eq_map]
    rfl
  have hplace := PohSlot.inPlace_start hhead
  have hmem : (tickEntry 7 0).pohEntry ∈ emptySlot.entries := by simp [hhead]
  constructor
  · refine ((observers_sound_iff emptySlot).1 {(7, 1)} 7 0 none
      [.entry ⟨tickEntry 7 0, .shredStream⟩ 0] ?_).mpr ?_
    · intro i hi e he
      rw [List.mem_singleton.mp hi] at he
      cases he
      exact hmem
    · refine EverySplit.snoc EverySplit.nil ?_
      intro e he _
      cases he
      exact hplace
  · refine ((observers_sound_iff emptySlot).2 {(7, 1)}
      [.entry (tickEntry 6 0), .entry (tickEntry 7 0)] ?_).mpr ?_
    · intro i hi e he
      rcases List.mem_pair.mp hi with rfl | rfl
      · cases he
      · cases he
        exact hmem
    · refine EverySplit.snoc (EverySplit.snoc EverySplit.nil ?_) ?_
      · intro _ e he
        cases he
      · intro _ e he _
        cases he
        exact hplace

/-- Of slot 7 only the second tick comes. -/
theorem lost_tick_misnumbers :
    (¬∀ (slot : PohSlot) (sched : TickSchedule) (is : List FanOut.Observer.Input),
        (is.filterMap (FanOut.Observer.Input.entryOf? slot.slot)).Subperm slot.entries →
          (FanOut.Observer.machine sched).Along (FanOut.Observer.Sound sched slot)
            (FanOut.Observer.start 7 0 none) is) ∧
      ¬∀ (slot : PohSlot) (sched : TickSchedule) (is : List Input),
        (is.filterMap (Input.entryOf? slot.slot)).Subperm slot.entries →
          (machine sched).Along (Sound sched slot) {} is := by
  have hmem : [(tickEntry 7 1).pohEntry].Subperm emptySlot.entries := by
    rw [List.singleton_subperm_iff, entries_emptySlot]
    exact List.mem_map_of_mem (List.mem_range.mpr (by decide))
  have hclosing : emptySlot.closing 1 ≠ some (tickEntry 7 1).pohEntry := by
    decide
  constructor
  · intro h
    have hsound := h emptySlot {(7, 1)} [.entry ⟨tickEntry 7 1, .shredStream⟩ 0] hmem
    obtain ⟨hnumber, -⟩ := hsound [] _ [] rfl
    exact hclosing (hnumber ((tickEntry 7 1).pohEntry, 1, 62_500) (by decide))
  · intro h
    have hsound := h emptySlot {(7, 1)} [.entry (tickEntry 6 0), .entry (tickEntry 7 1)] hmem
    obtain ⟨hnumber, -⟩ := hsound [.entry (tickEntry 6 0)] _ [] rfl
    exact hclosing (hnumber ((tickEntry 7 1).pohEntry, 1) (by decide))

end SolanaBench.TickTriggerBench.Observer
