import SolanaBench.Lib.OnceGuard
import SolanaBench.TickTrigger.TriggerEngine

/-! How often a scheduled tick fires. The `fired` set is a guard that answers a
tick once, until a compaction drops the tick's slot. -/
namespace SolanaBench.TickTrigger.TriggerEngine

open PohSupervisor

/-- Whether an event is the trigger of `key = (slot, tick)`. -/
def firesFor (key : ℕ × ℕ) : Event → Bool
  | .trigger t => decide ((t.slot, t.tick) = key)
  | .matched _ => false

/-- The number of triggers sent for `key`. -/
def firings (key : ℕ × ℕ) (os : List Output) : ℕ := (Effect.sent os).countP (firesFor key)

@[simp] theorem firings_nil (key : ℕ × ℕ) : firings key [] = 0 := rfl

@[simp] theorem firings_append (key : ℕ × ℕ) (os ps : List Output) :
    firings key (os ++ ps) = firings key os + firings key ps := by
  simp [firings, List.countP_append]

@[simp] theorem firings_fetchAdd (key : ℕ × ℕ) (c : Counter) (n : ℕ) (os : List Output) :
    firings key (.fetchAdd c n :: os) = firings key os := rfl

@[simp] theorem firings_send (key : ℕ × ℕ) (e : Event) (os : List Output) :
    firings key (.send e :: os) = firings key os + if firesFor key e then 1 else 0 := by
  simp [firings, List.countP_cons]

/-! ## One event -/

theorem firings_fire (key : ℕ × ℕ) (e : OrderedEntry) (now : Instant) :
    firings key (fire e now) = if key = (e.slot, e.tickIdxInSlot) then 1 else 0 := by
  cases h : e.tickUncertain <;> simp [fire, h, firesFor, triggerEvent, eq_comm]

/-- The three outcomes of the schedule check. -/
theorem scheduleCheck_cases (sched : Schedule) (st : State) (e : OrderedEntry) (now : Instant) :
    let key := (e.slot, e.tickIdxInSlot)
    (key ∈ sched ∧ 0 < key.2 ∧ key ∉ st.fired ∧
      scheduleCheck sched st e now = ({ st with fired := insert key st.fired }, fire e now)) ∨
    (key ∈ sched ∧ 0 < key.2 ∧ key ∈ st.fired ∧
      scheduleCheck sched st e now = (st, [.fetchAdd .scheduleDuplicateSuppressed 1])) ∨
    (¬(key ∈ sched ∧ 0 < key.2) ∧ scheduleCheck sched st e now = (st, [])) := by
  intro key
  by_cases hs : e.tickIdxInSlot > 0 ∧ key ∈ sched
  · by_cases hf : key ∈ st.fired
    · refine Or.inr (Or.inl ⟨hs.2, hs.1, hf, ?_⟩)
      rw [scheduleCheck, if_pos hs, if_neg (not_not.mpr hf)]
    · refine Or.inl ⟨hs.2, hs.1, hf, ?_⟩
      rw [scheduleCheck, if_pos hs, if_pos hf]
  · refine Or.inr (Or.inr ⟨fun h => hs h.symm, ?_⟩)
    rw [scheduleCheck, if_neg hs]

theorem scheduleCheck_fired (sched : Schedule) (st : State) (e : OrderedEntry) (now : Instant)
    (key : ℕ × ℕ) :
    key ∈ (scheduleCheck sched st e now).1.fired ↔
      key ∈ st.fired ∨ key = (e.slot, e.tickIdxInSlot) ∧ key ∈ sched ∧ 0 < key.2 := by
  obtain ⟨hs, hpos, -, heq⟩ | ⟨-, -, hf, heq⟩ | ⟨hno, heq⟩ := scheduleCheck_cases sched st e now
  · rw [heq, Finset.mem_insert]
    constructor
    · rintro (rfl | h)
      · exact Or.inr ⟨rfl, hs, hpos⟩
      · exact Or.inl h
    · rintro (h | ⟨h, -⟩)
      · exact Or.inr h
      · exact Or.inl h
  · rw [heq]
    refine ⟨Or.inl, ?_⟩
    rintro (h | ⟨rfl, -⟩)
    · exact h
    · exact hf
  · rw [heq]
    refine ⟨Or.inl, ?_⟩
    rintro (h | ⟨rfl, h⟩)
    · exact h
    · exact absurd h hno

theorem firings_scheduleCheck (sched : Schedule) (st : State) (e : OrderedEntry) (now : Instant)
    (key : ℕ × ℕ) :
    firings key (scheduleCheck sched st e now).2 =
      if (key = (e.slot, e.tickIdxInSlot) ∧ key ∈ sched ∧ 0 < key.2) ∧ key ∉ st.fired
      then 1 else 0 := by
  obtain ⟨hs, hpos, hf, heq⟩ | ⟨-, -, hf, heq⟩ | ⟨hno, heq⟩ := scheduleCheck_cases sched st e now
  · rw [heq, firings_fire]
    by_cases hkey : key = (e.slot, e.tickIdxInSlot)
    · subst hkey
      rw [if_pos rfl, if_pos ⟨⟨rfl, hs, hpos⟩, hf⟩]
    · rw [if_neg hkey, if_neg fun h => hkey h.1.1]
  · rw [heq, if_neg, firings_fetchAdd, firings_nil]
    rintro ⟨⟨rfl, -⟩, hnew⟩
    exact hnew hf
  · rw [heq, if_neg, firings_nil]
    rintro ⟨⟨rfl, h⟩, -⟩
    exact hno h

theorem firings_sigMatch (key : ℕ × ℕ) (e : OrderedEntry) (now : Instant) (sigs : List Signature)
    (pending : Finset Signature) : firings key (sigMatch e now sigs pending).2 = 0 := by
  induction sigs generalizing pending with
  | nil => rfl
  | cons sig sigs ih =>
    unfold sigMatch
    split_ifs
    · simp [firesFor, ih]
    · simp [ih]

theorem compact_fired (st : State) (slot : ℕ) (key : ℕ × ℕ) :
    key ∈ (compact st slot).fired ↔
      key ∈ st.fired ∧ ¬(compacts st.lastCompactSlot slot = true ∧ key.1 < slot - 256) := by
  unfold compact
  split_ifs with hc
  · simp [hc]
  · simp [hc]

theorem compact_lastCompactSlot (st : State) (slot : ℕ) :
    (compact st slot).lastCompactSlot =
      if compacts st.lastCompactSlot slot then slot else st.lastCompactSlot := by
  unfold compact
  split_ifs <;> rfl

@[simp] theorem scheduleCheck_lastCompactSlot (sched : Schedule) (st : State) (e : OrderedEntry)
    (now : Instant) : (scheduleCheck sched st e now).1.lastCompactSlot = st.lastCompactSlot := by
  obtain ⟨-, -, -, heq⟩ | ⟨-, -, -, heq⟩ | ⟨-, heq⟩ := scheduleCheck_cases sched st e now <;>
    rw [heq]

/-! ## What the inputs say -/

/-- `i` is an entry event of slot and tick `key`. -/
def Ticks (key : ℕ × ℕ) (_ : List Input) (i : Input) : Prop :=
  ∃ e now, i = .ordered (.entry e) now ∧ (e.slot, e.tickIdxInSlot) = key

/-- The slot of the last compaction after an input, given the one before it. -/
def compactSlot (last : ℕ) : Input → ℕ
  | .ordered (.entry e) _ => if compacts last e.slot then e.slot else last
  | _ => last

def lastCompaction (is : List Input) : ℕ := is.foldl compactSlot 0

/-- `i`, after `pre`, is an entry whose compaction drops the slot of `key`. -/
def CompactsAway (key : ℕ × ℕ) (pre : List Input) (i : Input) : Prop :=
  ∃ e now, i = .ordered (.entry e) now ∧ compacts (lastCompaction pre) e.slot = true ∧
    key.1 < e.slot - 256

/-- `key` does not occur again after a compaction that dropped an earlier occurrence. -/
def NeverRefired (key : ℕ × ℕ) (is : List Input) : Prop :=
  NeverRepeated (Ticks key) (CompactsAway key) is

/-- The invariant of a run, seen from one scheduled tick. -/
structure FiringLog (key : ℕ × ℕ) (is : List Input) (st : State) (os : List Output) : Prop where
  lastCompactSlot : st.lastCompactSlot = lastCompaction is
  guarded : OnceGuard (Ticks key) (CompactsAway key) is (key ∈ st.fired) (firings key os)

section Steps

variable {sched : Schedule} {key : ℕ × ℕ} {is : List Input} {st : State} {os : List Output}

theorem firings_handleEntry (e : OrderedEntry) (now : Instant) :
    firings key (handleEntry sched st e now).2 =
      if (key = (e.slot, e.tickIdxInSlot) ∧ key ∈ sched ∧ 0 < key.2) ∧ key ∉ st.fired
      then 1 else 0 := by
  have hcheck := firings_scheduleCheck sched (recordHash st e.slot e.observation.entryHash) e now key
  simp only [handleEntry, firings_append, firings_fetchAdd, List.cons_append, firings_sigMatch,
    Nat.add_zero]
  exact hcheck

theorem handleEntry_fired (e : OrderedEntry) (now : Instant) :
    key ∈ (handleEntry sched st e now).1.fired ↔
      (key ∈ st.fired ∨ key = (e.slot, e.tickIdxInSlot) ∧ key ∈ sched ∧ 0 < key.2) ∧
        ¬(compacts st.lastCompactSlot e.slot = true ∧ key.1 < e.slot - 256) := by
  simp only [handleEntry, compact_fired, scheduleCheck_fired, scheduleCheck_lastCompactSlot]
  exact Iff.rfl

theorem handleEntry_lastCompactSlot (e : OrderedEntry) (now : Instant) :
    (handleEntry sched st e now).1.lastCompactSlot =
      if compacts st.lastCompactSlot e.slot then e.slot else st.lastCompactSlot := by
  simp only [handleEntry, compact_lastCompactSlot, scheduleCheck_lastCompactSlot]
  rfl

theorem FiringLog.entry (h : FiringLog key is st os) (hs : key ∈ sched) (hpos : 0 < key.2)
    (e : OrderedEntry) (now : Instant) :
    FiringLog key (is ++ [.ordered (.entry e) now]) (handleEntry sched st e now).1
      (os ++ (handleEntry sched st e now).2) := by
  have hticks : Ticks key is (.ordered (.entry e) now) ↔ key = (e.slot, e.tickIdxInSlot) := by
    simp [Ticks, eq_comm]
  have haway : CompactsAway key is (.ordered (.entry e) now) ↔
      compacts st.lastCompactSlot e.slot = true ∧ key.1 < e.slot - 256 := by
    simp [CompactsAway, h.lastCompactSlot]
  refine ⟨?_, ?_⟩
  · rw [handleEntry_lastCompactSlot, h.lastCompactSlot]
    rw [lastCompaction, lastCompaction, List.foldl_append]
    rfl
  rw [firings_append, firings_handleEntry]
  by_cases hkey : key = (e.slot, e.tickIdxInSlot)
  · -- its own compaction keeps the slot of the entry
    have hkept : ¬(compacts st.lastCompactSlot e.slot = true ∧ key.1 < e.slot - 256) := by
      rw [hkey]
      rintro ⟨-, hlt⟩
      simp only at hlt
      omega
    refine h.guarded.request (hticks.mpr hkey) (haway.not.mpr hkept) ?_ ?_ ?_
    · exact (handleEntry_fired e now).mpr ⟨Or.inr ⟨hkey, hs, hpos⟩, hkept⟩
    · intro hf
      rw [if_neg fun hn => hn.2 hf, Nat.add_zero]
    · intro hf
      rw [if_pos ⟨⟨hkey, hs, hpos⟩, hf⟩]
  · rw [if_neg fun hn => hkey hn.1.1, Nat.add_zero]
    have hno := fun ht => hkey (hticks.mp ht)
    by_cases hd : compacts st.lastCompactSlot e.slot = true ∧ key.1 < e.slot - 256
    · refine h.guarded.drop hno (haway.mpr hd) ?_
      rw [handleEntry_fired]
      exact fun hf => hf.2 hd
    · refine h.guarded.other hno (haway.not.mpr hd) ?_
      rw [handleEntry_fired]
      simp [hd, hkey]

/-- An input without an entry leaves the firing log as it is. -/
theorem FiringLog.silent (h : FiringLog key is st os) {i : Input} {st' : State}
    (hi : ∀ e now, i ≠ .ordered (.entry e) now) (hfired : st'.fired = st.fired)
    (hlast : st'.lastCompactSlot = st.lastCompactSlot) : FiringLog key (is ++ [i]) st' (os ++ []) := by
  have hticks : ¬Ticks key is i := by
    rintro ⟨e, now, rfl, -⟩
    exact hi e now rfl
  have haway : ¬CompactsAway key is i := by
    rintro ⟨e, now, rfl, -⟩
    exact hi e now rfl
  refine ⟨?_, ?_⟩
  · rw [hlast, h.lastCompactSlot, lastCompaction, lastCompaction, List.foldl_append]
    cases i with
    | register sig => rfl
    | ordered event now =>
      cases event with
      | entry e => exact absurd rfl (hi e now)
      | missing m => rfl
      | slotComplete c => rfl
      | slotIncomplete c => rfl
  · rw [List.append_nil, hfired]
    exact h.guarded.other hticks haway Iff.rfl

end Steps

theorem firingLog_run (sched : Schedule) {key : ℕ × ℕ} (hs : key ∈ sched) (hpos : 0 < key.2)
    (is : List Input) :
    FiringLog key is ((machine sched).run {} is).1 ((machine sched).run {} is).2 := by
  refine (machine sched).run_rule (FiringLog key) {} ⟨rfl, OnceGuard.init (by simp)⟩ ?_ is
  intro is st os i h
  cases i with
  | register sig => exact h.silent (by simp) rfl rfl
  | ordered event now =>
    cases event with
    | entry e => exact h.entry hs hpos e now
    | missing m => exact h.silent (by simp) rfl rfl
    | slotComplete c => exact h.silent (by simp) rfl rfl
    | slotIncomplete c => exact h.silent (by simp) rfl rfl

/-- A tick that is not scheduled never fires. -/
theorem firings_unscheduled (sched : Schedule) {key : ℕ × ℕ} (hs : key ∉ sched)
    (is : List Input) : firings key ((machine sched).run {} is).2 = 0 := by
  refine (machine sched).run_rule (fun _ _ os => firings key os = 0) {} rfl ?_ is
  intro _ st os i h
  rw [firings_append, h, Nat.zero_add]
  cases i with
  | register sig => rfl
  | ordered event now =>
    cases event with
    | entry e =>
      rw [show (machine sched).step st (.ordered (.entry e) now) = handleEntry sched st e now from rfl,
        firings_handleEntry, if_neg fun hn => hs hn.1.2.1]
    | missing m => rfl
    | slotComplete c => rfl
    | slotIncomplete c => rfl

/-- A scheduled tick that occurs fires exactly once iff it does not occur again after
its slot was compacted away; a tick that is not scheduled never fires. -/
theorem fires_once_iff_neverRefired (sched : Schedule) (is : List Input) (key : ℕ × ℕ) :
    (key ∈ sched → 1 ≤ key.2 → SomeSplit (Ticks key) is →
      (firings key ((machine sched).run {} is).2 = 1 ↔ NeverRefired key is)) ∧
      (key ∉ sched → firings key ((machine sched).run {} is).2 = 0) :=
  ⟨fun hs hpos ho => (firingLog_run sched hs hpos is).guarded.answered_eq_one_iff ho,
    fun hs => firings_unscheduled sched hs is⟩

/-- An entry event without signatures, for runs on concrete inputs. -/
def sampleOrdered (slot tick : ℕ) : Input :=
  .ordered (.entry
    { slot := slot, entryIndex := 0, tickIdxInSlot := tick, cumulativeHashesInSlot := 0,
      observation :=
        { source := .shredStream, observedAt := 0, slot := slot, entryIndex := 0, numHashes := 0,
          entryHash := 0, txCount := 0, signatures := [] },
      wasReordered := false, waitDurationUs := 0, tickUncertain := false }) 0

theorem fires_once_iff_neverRefired_sample :
    let is := [sampleOrdered 10 5, sampleOrdered 300 0]
    (firings (10, 5) ((machine {(10, 5)}).run {} is).2 = 1 ↔ NeverRefired (10, 5) is) ∧
      firings (10, 6) ((machine {(10, 5)}).run {} is).2 = 0 :=
  ⟨(fires_once_iff_neverRefired {(10, 5)} _ (10, 5)).1 (by decide) (by decide)
      ⟨[], _, _, rfl, _, _, rfl, rfl⟩,
    (fires_once_iff_neverRefired {(10, 5)} _ (10, 6)).2 (by decide)⟩

/-- Slot 300 compacts slot 10 away, and the late entry of slot 10 fires its tick again. -/
theorem late_slot_fires_again :
    ¬∀ (sched : Schedule) (is : List Input) (key : ℕ × ℕ), key ∈ sched → 1 ≤ key.2 →
      SomeSplit (Ticks key) is → firings key ((machine sched).run {} is).2 = 1 := by
  intro h
  have hocc : SomeSplit (Ticks (10, 5))
      [sampleOrdered 10 5, sampleOrdered 300 0, sampleOrdered 10 5] :=
    ⟨[], _, _, rfl, _, _, rfl, rfl⟩
  have hone := h {(10, 5)} _ (10, 5) (by decide) (by decide) hocc
  revert hone
  decide +kernel

end SolanaBench.TickTrigger.TriggerEngine
