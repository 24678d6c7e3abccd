import SolanaBench.FanOut.Observer
import SolanaBench.Lib.AListEach

/-! The tick numbers of the fan-out observer against the proof of history of a slot. -/
namespace SolanaBench.FanOut.Observer

open WindowRule

/-- The part of a slot's state that numbers its ticks. -/
def SlotState.counter (st : SlotState) : WindowCount Hash where
  closed := st.tickIdx
  weight := st.hashCountSinceLastTick
  total := st.cumulativeHashesInSlot
  seen := st.seenEntries

def State.counter (s : State) (slot : ℕ) : WindowCount Hash := (s.slotState slot).counter

/-- The entry of the slot that the input brings. -/
def Input.entryOf? (slot : ℕ) : Input → Option PohEntry
  | .entry m _ => if m.observation.slot = slot then some m.observation.pohEntry else none
  | .timeout _ => none
  | .pendingSig _ => none

/-- What comes for the slot are entries of it, in any order and any number. -/
def Delivers (slot : PohSlot) (is : List Input) : Prop :=
  ∀ i ∈ is, ∀ e ∈ i.entryOf? slot.slot, e ∈ slot.entries

/-- An entry with a number closes that tick of the slot, and so does one that fires a trigger. -/
def Sound (sched : TickSchedule) (slot : PohSlot) (s : State) (i : Input) : Prop :=
  (∀ x ∈ numbered sched slot.slot s i, slot.closing x.2.1 = some x.1) ∧
    ∀ ev, .send (.trigger ev) ∈ ((machine sched).step s i).2 → ev.slot = slot.slot →
      ∃ e ∈ i.entryOf? slot.slot, slot.closing ev.tick = some e

/-- A tick entry that comes with the hashes of a whole tick is in place. -/
def InPlace (slot : PohSlot) (s : State) (i : Input) : Prop :=
  ∀ e ∈ i.entryOf? slot.slot, tickRule.Completes (s.counter slot.slot) e →
    slot.InPlace (s.counter slot.slot) e

section

variable {slot : PohSlot} {sched : TickSchedule} {st : SlotState} {s : State} {i : Input}
  {obs : EntryObservation} {now : Instant}

theorem fire_counter (slotNo tickNow : ℕ) :
    (st.fire sched slotNo tickNow now).1.counter = st.counter := by
  unfold SlotState.fire
  split <;> rfl

/-- Below the hashes of a slot nothing saturates, and the state counts windows. -/
theorem observe_refines (sched : TickSchedule) (now : Instant)
    (hweighed : Weighed tickRule slot.entries st.counter)
    (hobs : obs.pohEntry ∈ slot.entries) (hnew : obs.entryHash ∉ st.seenEntries) :
    (st.observe sched obs now).1.counter = (tickRule.take st.counter obs.pohEntry).1 ∧
      (st.observe sched obs now).2.1 = (tickRule.take st.counter obs.pohEntry).2 := by
  have hnext := hweighed.take slot.nodup hobs
  have htotal : st.cumulativeHashesInSlot + obs.numHashes ≤ 62_500 * 64 :=
    (total_take (R := tickRule) (c := st.counter) (x := obs.pohEntry) hnew).ge.trans
      (slot.total_le hnext)
  have hweight : st.cumulativeHashesInSlot = 62_500 * st.tickIdx + st.hashCountSinceLastTick :=
    hweighed.windows
  have hcumulative : satAddU64 st.cumulativeHashesInSlot obs.numHashes =
      st.cumulativeHashesInSlot + obs.numHashes := min_eq_left (by unfold U64.MAX; omega)
  have hcount : satAddU64 st.hashCountSinceLastTick obs.numHashes =
      st.hashCountSinceLastTick + obs.numHashes := min_eq_left (by unfold U64.MAX; omega)
  by_cases hcompletes : tickRule.Completes st.counter obs.pohEntry
  · have htx : obs.txCount == 0 := hcompletes.2.1
    have hsize : st.hashCountSinceLastTick + obs.numHashes = HASHES_PER_TICK := hcompletes.2.2
    have htick : st.tickIdx < TICKS_PER_SLOT := by
      unfold HASHES_PER_TICK at hsize
      unfold TICKS_PER_SLOT
      omega
    have hidx : satAddU8 st.tickIdx 1 = st.tickIdx + 1 := min_eq_left (by
      unfold TICKS_PER_SLOT at htick
      omega)
    have hisTick : (st.add obs).isTick obs = true := by
      simp [SlotState.isTick, SlotState.add, hcount, hsize, htx]
    rw [take_of_completes hcompletes]
    unfold SlotState.observe
    dsimp only
    rw [if_pos hisTick, if_pos (show (st.add obs).tickIdx < TICKS_PER_SLOT from htick)]
    dsimp only
    rw [fire_counter]
    simp [SlotState.counter, SlotState.add, hidx, hcumulative, EntryObservation.pohEntry, tickRule]
  · have hisTick : (st.add obs).isTick obs = false := by
      refine Bool.eq_false_iff.mpr fun htick => hcompletes ⟨hnew, ?_⟩
      unfold SlotState.isTick SlotState.add at htick
      dsimp only at htick
      rw [hcount, Bool.and_eq_true, decide_eq_true_eq] at htick
      exact htick
    rw [take_of_not_completes hnew hcompletes]
    unfold SlotState.observe
    dsimp only
    rw [if_neg (by rw [hisTick]; exact Bool.false_ne_true)]
    simp [SlotState.counter, SlotState.add, hcumulative, hcount, EntryObservation.pohEntry, tickRule]

/-- A slot that is dropped starts anew, and only one far below the highest is. -/
theorem slotState_evict_or (k : ℕ) : (maybeEvictOldSlots s now).slotState k = s.slotState k ∨
    k + 64 < s.currentSlot ∧ (maybeEvictOldSlots s now).slotState k = {} := by
  unfold maybeEvictOldSlots State.slotState
  split
  · exact Or.inl rfl
  · dsimp only
    split
    · rename_i hhigh
      rw [AList.lookup_retain]
      cases s.slotStates.lookup k with
      | none => exact Or.inl rfl
      | some st =>
        rw [Option.filter_some]
        by_cases hkeep : k ≥ s.currentSlot - 64
        · rw [if_pos (decide_eq_true hkeep)]
          exact Or.inl rfl
        · rw [if_neg (by simpa using hkeep)]
          exact Or.inr ⟨by omega, rfl⟩
    · exact Or.inl rfl

theorem currentSlot_evict : (maybeEvictOldSlots s now).currentSlot = s.currentSlot := by
  unfold maybeEvictOldSlots
  split <;> rfl

theorem slotState_advance (k k' : ℕ) : (advance s k).slotState k' = s.slotState k' := by
  unfold advance
  split <;> rfl

/-- An entry changes the state of its own slot, and a known one no state at all. -/
theorem slotState_processEntry (m : MergedEntry) (k : ℕ) :
    (processEntry sched s m now).1.slotState k =
      if m.observation.slot = k ∧ m.observation.entryHash ∉ (s.slotState k).seenEntries then
        ((s.slotState k).observe sched m.observation now).1
      else s.slotState k := by
  unfold processEntry
  dsimp only
  by_cases hslot : m.observation.slot = k
  · subst hslot
    by_cases hmem : m.observation.entryHash ∈ (s.slotState m.observation.slot).seenEntries
    · simp [hmem]
    · rw [if_neg hmem, if_pos ⟨rfl, hmem⟩]
      unfold State.slotState
      dsimp only
      rw [AList.lookup_insert]
      rfl
  · rw [if_neg (show ¬(m.observation.slot = k ∧ _) from fun h => hslot h.1)]
    split
    · rfl
    · unfold State.slotState
      dsimp only
      rw [AList.lookup_insert_ne (Ne.symm hslot)]

theorem slotState_machine_entry (sched : TickSchedule) (s : State) (now : Instant) (m : MergedEntry)
    (k : ℕ) :
    ((machine sched).step s (.entry m now)).1.slotState k =
        (processEntry sched s m now).1.slotState k ∨
      k + 64 < ((machine sched).step s (.entry m now)).1.currentSlot ∧
        ((machine sched).step s (.entry m now)).1.slotState k = {} := by
  have h := @slotState_evict_or (advance (processEntry sched s m now).1 m.observation.slot) now k
  rw [slotState_advance] at h
  unfold machine
  dsimp only
  rwa [currentSlot_evict]

/-- What a step makes of the count of a slot: it may be dropped if the slot is far below the
highest, and else it takes in the entry that came. -/
theorem counter_step (hweighed : Weighed tickRule slot.entries (s.counter slot.slot))
    (hdelivers : ∀ e ∈ i.entryOf? slot.slot, e ∈ slot.entries) :
    (slot.slot + 64 < ((machine sched).step s i).1.currentSlot ∧
        ((machine sched).step s i).1.counter slot.slot = {}) ∨
      ((machine sched).step s i).1.counter slot.slot = match i.entryOf? slot.slot with
        | some e => (tickRule.take (s.counter slot.slot) e).1
        | none => s.counter slot.slot := by
  cases i with
  | entry m now =>
    rcases slotState_machine_entry sched s now m slot.slot with hkeep | ⟨hfar, hdrop⟩
    · refine Or.inr ?_
      unfold State.counter
      rw [hkeep, slotState_processEntry]
      unfold Input.entryOf?
      by_cases hslot : m.observation.slot = slot.slot
      · simp only [hslot, if_true, true_and]
        by_cases hmem : m.observation.entryHash ∈ (s.slotState slot.slot).seenEntries
        · rw [if_neg (not_not_intro hmem), take_of_mem hmem]
        · rw [if_pos hmem]
          exact (observe_refines sched now hweighed (hdelivers _ (if_pos hslot)) hmem).1
      · simp only [hslot, if_false, false_and]
    · refine Or.inl ⟨hfar, ?_⟩
      unfold State.counter
      rw [hdrop]
      rfl
  | timeout now =>
    rcases @slotState_evict_or s now slot.slot with hkeep | ⟨hfar, hdrop⟩
    · exact Or.inr (congrArg SlotState.counter hkeep)
    · refine Or.inl ⟨?_, congrArg SlotState.counter hdrop⟩
      change _ < (maybeEvictOldSlots s now).currentSlot
      rwa [currentSlot_evict]
  | pendingSig sig => exact Or.inr rfl

/-- The numbers of a step are those that the count gives. -/
theorem numbered_eq (hweighed : Weighed tickRule slot.entries (s.counter slot.slot))
    (hdelivers : ∀ e ∈ i.entryOf? slot.slot, e ∈ slot.entries) :
    numbered sched slot.slot s i = (i.entryOf? slot.slot).toList.flatMap fun e =>
      (tickRule.machine.step (s.counter slot.slot) e).2 := by
  cases i with
  | entry m now =>
    unfold numbered Input.entryOf?
    dsimp only
    by_cases hslot : m.observation.slot = slot.slot
    · rw [if_pos hslot, Option.toList_some, List.flatMap_singleton]
      by_cases hmem : m.observation.entryHash ∈ (s.slotState slot.slot).seenEntries
      · have htake : tickRule.take (s.counter slot.slot) m.observation.pohEntry =
            (s.counter slot.slot, none) := take_of_mem hmem
        rw [if_neg fun h => h.2 hmem]
        simp [WindowRule.machine, htake]
      · obtain ⟨hcounter, hnumber⟩ := observe_refines sched now hweighed
          (hdelivers _ (if_pos hslot)) hmem
        rw [if_pos ⟨hslot, hmem⟩, hnumber]
        unfold WindowRule.machine
        dsimp only
        rw [show State.counter s slot.slot = (s.slotState slot.slot).counter from rfl, ← hcounter]
        rfl
    · rw [if_neg fun h => hslot h.1, if_neg hslot]
      rfl
  | timeout now => rfl
  | pendingSig sig => rfl

/-! ## Triggers -/

def Event.trigger? : Event → Option TriggerEvent
  | .trigger ev => some ev
  | .matched _ => none

/-- The triggers among some outputs. -/
def triggers (os : List Output) : List TriggerEvent := (Effect.sent os).filterMap Event.trigger?

/-- Only ticks up to the last one have fired. -/
def State.FiredPast (s : State) : Prop :=
  ∀ k, ∀ n ∈ (s.slotState k).firedTicks, n ≤ (s.slotState k).tickIdx

theorem observe_firedPast (h : ∀ n ∈ st.firedTicks, n ≤ st.tickIdx) :
    ∀ n ∈ (st.observe sched obs now).1.firedTicks, n ≤ (st.observe sched obs now).1.tickIdx := by
  unfold SlotState.observe
  dsimp only
  split
  · split
    · rename_i hlt
      have hidx : satAddU8 (st.add obs).tickIdx 1 = st.tickIdx + 1 := min_eq_left (by
        unfold TICKS_PER_SLOT at hlt
        change st.tickIdx < 64 at hlt
        change st.tickIdx + 1 ≤ 255
        omega)
      unfold SlotState.fire
      dsimp only
      rw [hidx]
      split
      · intro n hn
        rcases Finset.mem_insert.mp hn with rfl | hn
        · exact Nat.le_refl _
        · exact Nat.le_succ_of_le (h n hn)
      · exact fun n hn => Nat.le_succ_of_le (h n hn)
    · exact h
  · exact h

theorem firedPast_step (h : s.FiredPast) : ((machine sched).step s i).1.FiredPast := by
  intro k
  have hdrop : ∀ s' : State, s'.slotState k = {} →
      ∀ n ∈ (s'.slotState k).firedTicks, n ≤ (s'.slotState k).tickIdx := by
    intro s' hs' n hn
    rw [hs'] at hn
    cases hn
  cases i with
  | entry m now =>
    rcases slotState_machine_entry sched s now m k with hkeep | ⟨-, hnew⟩
    · rw [hkeep, slotState_processEntry]
      split
      · exact observe_firedPast (h k)
      · exact h k
    · exact hdrop _ hnew
  | timeout now =>
    rcases @slotState_evict_or s now k with hkeep | ⟨-, hnew⟩
    · change ∀ n ∈ ((maybeEvictOldSlots s now).slotState k).firedTicks,
        n ≤ ((maybeEvictOldSlots s now).slotState k).tickIdx
      rw [hkeep]
      exact h k
    · exact hdrop _ hnew
  | pendingSig sig => exact h k

theorem triggers_append (os ps : List Output) : triggers (os ++ ps) = triggers os ++ triggers ps := by
  unfold triggers
  rw [Effect.sent_append, List.filterMap_append]

theorem triggers_sigMatch (m : MergedEntry) (sigs : List Signature) (pending : Finset Signature) :
    triggers (sigMatch m st now sigs pending).2 = [] := by
  induction sigs generalizing pending with
  | nil => rfl
  | cons sig sigs ih =>
    unfold sigMatch
    split
    · exact ih _
    · exact ih _

/-- A numbered tick fires exactly if it is scheduled. -/
theorem triggers_observe (h : ∀ n ∈ st.firedTicks, n ≤ st.tickIdx) :
    triggers (st.observe sched obs now).2.2 =
      ((st.observe sched obs now).2.1.toList.filter fun n => decide ((obs.slot, n) ∈ sched)).map
        fun n => ⟨obs.slot, n, (st.observe sched obs now).1.cumulativeHashesInSlot, now⟩ := by
  unfold SlotState.observe
  dsimp only
  split
  · split
    · rename_i hlt
      have hidx : satAddU8 (st.add obs).tickIdx 1 = st.tickIdx + 1 := min_eq_left (by
        unfold TICKS_PER_SLOT at hlt
        change st.tickIdx < 64 at hlt
        change st.tickIdx + 1 ≤ 255
        omega)
      have hnew : st.tickIdx + 1 ∉ st.firedTicks := fun hmem => absurd (h _ hmem) (by omega)
      unfold SlotState.fire
      dsimp only
      rw [hidx]
      by_cases hsched : (obs.slot, st.tickIdx + 1) ∈ sched
      · rw [if_pos ⟨hsched, hnew⟩]
        simp [hsched, triggers, Event.trigger?]
      · rw [if_neg fun h => hsched h.1]
        simp [hsched, triggers]
    · rfl
  · rfl

theorem slot_of_mem_triggers (h : ∀ n ∈ st.firedTicks, n ≤ st.tickIdx) {ev : TriggerEvent}
    (hev : ev ∈ triggers (st.observe sched obs now).2.2) : ev.slot = obs.slot := by
  rw [triggers_observe h] at hev
  obtain ⟨n, -, rfl⟩ := List.mem_map.mp hev
  rfl

/-- The triggers of a slot are its numbered ticks that are scheduled. -/
theorem triggers_step (h : s.FiredPast) (k : ℕ) :
    (((triggers ((machine sched).step s i).2).filter fun ev => ev.slot = k).map fun ev =>
        (ev.tick, ev.cumulativeHashesInSlot)) =
      ((numbered sched k s i).filter fun x => decide ((k, x.2.1) ∈ sched)).map Prod.snd := by
  cases i with
  | entry m now =>
    change ((triggers (processEntry sched s m now).2).filter _).map _ = _
    unfold processEntry numbered
    dsimp only
    by_cases hslot : m.observation.slot = k
    · subst hslot
      by_cases hmem : m.observation.entryHash ∈ (s.slotState m.observation.slot).seenEntries
      · simp [hmem, triggers]
      · have hself : ∀ ev ∈ triggers ((s.slotState m.observation.slot).observe sched m.observation
            now).2.2, decide (ev.slot = m.observation.slot) = true := fun ev hev =>
          decide_eq_true (slot_of_mem_triggers (h _) hev)
        rw [if_neg hmem, if_pos ⟨rfl, hmem⟩, triggers_append, triggers_sigMatch, List.append_nil,
          List.filter_eq_self.mpr hself, triggers_observe (h m.observation.slot), List.map_map,
          List.filter_map, List.map_map]
        rfl
    · rw [if_neg (show ¬(m.observation.slot = k ∧ _) from fun h => hslot h.1)]
      split
      · rfl
      · rw [triggers_append, triggers_sigMatch, List.append_nil, List.filter_eq_nil_iff.mpr]
        · rfl
        · intro ev hev
          rw [slot_of_mem_triggers (h _) hev]
          simpa using hslot
  | timeout now => rfl
  | pendingSig sig => rfl

/-! ## Runs -/

theorem firedPast_run (h : s.FiredPast) (is : List Input) :
    ((machine sched).run s is).1.FiredPast :=
  (machine sched).run_invariant State.FiredPast h (fun _ _ h => firedPast_step h) is

/-- In every run the slot's count has weighed nothing but entries of the slot. -/
theorem weighed_run {is : List Input} (hdelivers : Delivers slot is)
    (h : Weighed tickRule slot.entries (s.counter slot.slot)) :
    Weighed tickRule slot.entries (((machine sched).run s is).1.counter slot.slot) := by
  induction is using List.reverseRecOn with
  | nil => exact h
  | append_singleton is i ih =>
    have hweighed := ih fun j hj => hdelivers j (List.mem_append_left _ hj)
    have hi := hdelivers i (by simp)
    rw [EventMachine.run_snoc_fst]
    rcases counter_step hweighed hi with ⟨-, hdrop⟩ | hkeep
    · rw [hdrop]
      exact weighed_start tickRule slot.entries
    · rw [hkeep]
      cases he : i.entryOf? slot.slot with
      | none => exact hweighed
      | some e => exact hweighed.take slot.nodup (hi e he)

/-- One step numbers rightly exactly if the entry is in place. -/
theorem sound_step_iff (hfired : s.FiredPast)
    (hweighed : Weighed tickRule slot.entries (s.counter slot.slot))
    (hdelivers : ∀ e ∈ i.entryOf? slot.slot, e ∈ slot.entries) :
    Sound sched slot s i ↔ InPlace slot s i := by
  have hnumbers : (∀ x ∈ numbered sched slot.slot s i, slot.closing x.2.1 = some x.1) ↔
      InPlace slot s i := by
    rw [numbered_eq hweighed hdelivers]
    unfold InPlace
    cases he : i.entryOf? slot.slot with
    | none => simp
    | some e =>
      have hsound := slot.number_sound_iff hweighed (hdelivers e he)
      simpa [WindowRule.machine] using hsound
  refine ⟨fun h => hnumbers.mp h.1, fun h => ⟨hnumbers.mpr h, fun ev hev hslot => ?_⟩⟩
  have hmem : ev ∈ triggers ((machine sched).step s i).2 :=
    List.mem_filterMap.mpr ⟨_, List.mem_filterMap.mpr ⟨_, hev, rfl⟩, rfl⟩
  have hpair : (ev.tick, ev.cumulativeHashesInSlot) ∈
      ((numbered sched slot.slot s i).filter fun x => decide ((slot.slot, x.2.1) ∈ sched)).map
        Prod.snd := by
    rw [← triggers_step hfired slot.slot]
    exact List.mem_map_of_mem (List.mem_filter.mpr ⟨hmem, by simpa using hslot⟩)
  obtain ⟨x, hx, heq⟩ := List.mem_map.mp hpair
  have hx' := (List.mem_filter.mp hx).1
  refine ⟨x.1, ?_, ?_⟩
  · rw [numbered_eq hweighed hdelivers] at hx'
    obtain ⟨e, he, hxe⟩ := List.mem_flatMap.mp hx'
    obtain ⟨n, -, rfl⟩ := List.mem_map.mp hxe
    exact Option.mem_toList.mp he
  · rw [← hnumbers.mpr h x hx', heq]

/-- A state that has not seen any entry. -/
def start (currentSlot : ℕ) (now : Instant) (cache : Option SlotHashCache) : State where
  lastEviction := now
  currentSlot := currentSlot
  slotHashCache := cache

theorem firedPast_start (currentSlot : ℕ) (cache : Option SlotHashCache) :
    (start currentSlot now cache).FiredPast := fun _ n hn => by cases hn

theorem weighed_at (currentSlot : ℕ) (cache : Option SlotHashCache) {is : List Input}
    (hdelivers : Delivers slot is) : Weighed tickRule slot.entries
      (((machine sched).run (start currentSlot now cache) is).1.counter slot.slot) :=
  weighed_run hdelivers (weighed_start tickRule slot.entries)

end

/-- Ticks are numbered rightly in a run exactly if every tick entry that comes with the hashes
of a whole tick is in place. -/
theorem numbers_sound_iff (sched : TickSchedule) (slot : PohSlot) (currentSlot : ℕ) (now : Instant)
    (cache : Option SlotHashCache) (is : List Input) (hdelivers : Delivers slot is) :
    (machine sched).Along (Sound sched slot) (start currentSlot now cache) is ↔
      (machine sched).Along (InPlace slot) (start currentSlot now cache) is := by
  have hstep : ∀ pre i post, is = pre ++ i :: post →
      (Sound sched slot ((machine sched).run (start currentSlot now cache) pre).1 i ↔
        InPlace slot ((machine sched).run (start currentSlot now cache) pre).1 i) := by
    rintro pre i post rfl
    have hpre : Delivers slot pre := fun j hj => hdelivers j (List.mem_append_left _ hj)
    exact sound_step_iff (firedPast_run (firedPast_start currentSlot cache) pre)
      (weighed_at currentSlot cache hpre) (hdelivers i (by simp))
  exact forall₄_congr fun pre i post hsplit => hstep pre i post hsplit

end SolanaBench.FanOut.Observer
