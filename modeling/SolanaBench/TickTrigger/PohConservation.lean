import SolanaBench.TickTrigger.PohLifetimes

/-! Conservation of entries. Every entry the supervisor takes in is emitted, counted as
dropped or still buffered, unless it overwrites a buffered entry of the same index. -/
namespace SolanaBench.TickTrigger.PohSupervisor

/-- The calls of `process`. -/
def arrivals (is : List Input) : ℕ :=
  is.countP fun
    | .arrival _ _ => true
    | .sweep _ => false

/-- The entries the counters account for, as emitted or as dropped. -/
def accountedFor (os : List Output) : ℕ :=
  Effect.total .entriesEmittedImmediate os + Effect.total .entriesEmittedReordered os +
    Effect.total .duplicatesDropped os + Effect.total .pendingDropsCapacity os +
    Effect.total .lateArrivalsAfterSeal os

/-- The entries in all `pending` maps. -/
def buffered (slots : SortedMap ℕ PohSlot) : ℕ := SortedMap.weight (fun s => s.pending.size) slots

def Conserved (cfg : Config) (is : List Input) : Prop :=
  arrivals is = accountedFor ((machine cfg).run {} is).2 +
    buffered ((machine cfg).run {} is).1.slots

/-- The index is buffered already, and the buffer of the slot has room. -/
def overwritesIn (cfg : Config) (s : PohSlot) (m : MergedEntry) : Bool :=
  (s.pending.get? m.observation.entryIndex).isSome && decide (s.pending.size < cfg.maxPendingPerSlot)

/-- The input replaces an entry in the buffer of its slot. -/
def overwrites (cfg : Config) (st : State) : Input → Bool
  | .arrival m _ => overwritesIn cfg ((st.slots.get? m.observation.slot).getD {}) m
  | .sweep _ => false

@[simp] theorem accountedFor_nil : accountedFor [] = 0 := rfl

@[simp] theorem accountedFor_append (os ps : List Output) :
    accountedFor (os ++ ps) = accountedFor os + accountedFor ps := by
  simp only [accountedFor, Effect.total_append]
  omega

/-! ## The loops -/

variable {cfg : Config} {now : Instant} {k : ℕ}

theorem accountedFor_emitNext (s : PohSlot) (m : MergedEntry) (now : Instant)
    (wasReordered : Bool) (waitUs : ℕ) :
    accountedFor (emitNext s m now wasReordered waitUs).2 = 1 := by
  cases wasReordered <;> simp [accountedFor, emitNext, emitEntry]

/-- An iteration moves one entry from the buffer to the output, or fills a gap. -/
theorem DrainIteration.conserves {s : PohSlot} {r : PohSlot × List Output}
    (h : DrainIteration cfg k now s r) :
    accountedFor r.2 + r.1.pending.size = s.pending.size := by
  obtain ⟨e, he, ⟨-, rfl⟩ | ⟨-, rfl⟩⟩ := h
  · have hsize := SortedMap.size_popFirst he
    have hone : accountedFor (emitPending s e.2 now).2 = 1 := accountedFor_emitNext ..
    have hp : (emitPending s e.2 now).1.pending = s.pending.popFirst := rfl
    rw [hone, hp]
    omega
  · have hnone : accountedFor (emitMissing cfg s k now).2 = 0 := by
      simp [accountedFor, emitMissing]
    have hp : (emitMissing cfg s k now).1.pending = s.pending := rfl
    rw [hnone, hp, Nat.zero_add]

theorem conserves_exec (cfg : Config) (k : ℕ) (now : Instant) {L : WhileLoop PohSlot Output}
    (hL : ∀ s r, L.body s = some r → DrainIteration cfg k now s r) (s : PohSlot) :
    accountedFor (L.exec s).2 + (L.exec s).1.pending.size = s.pending.size := by
  exact L.exec_rule (fun t os => accountedFor os + t.pending.size = s.pending.size)
    (by simp) (by
      intro t os u es ht hb
      have hit := (hL t (u, es) hb).conserves
      dsimp only at hit
      rw [accountedFor_append]
      omega)

/-! ## The calls -/

theorem sealSlot_conserves (s : PohSlot) :
    accountedFor (sealSlot cfg s k now).2 + (sealSlot cfg s k now).1.pending.size =
      s.pending.size := by
  have hend : ∀ (missing : Bool) (t : PohSlot), accountedFor
      ((if missing then [.fetchAdd .slotsWithMissing 1] else [] : List Output) ++
        [.fetchAdd (terminalCounter t) 1, .send (terminalEvent t k)]) = 0 := by
    intro missing t
    unfold terminalCounter
    cases missing <;> split_ifs <;> simp [accountedFor]
  unfold sealSlot
  cases hlast : s.pending.lastKeyValue with
  | none =>
    dsimp only
    rw [List.nil_append, hend, Nat.zero_add]
  | some e =>
    dsimp only
    have hloop := conserves_exec cfg k now (L := flushPending cfg k now e.1)
      (fun _ _ => flushPending_iteration) s
    rw [List.append_assoc, accountedFor_append, hend, Nat.add_zero]
    exact hloop

theorem ifUnsealed_conserves {f : PohSlot → PohSlot × List Output}
    (hf : ∀ s, accountedFor (f s).2 + (f s).1.pending.size = s.pending.size) (s : PohSlot) :
    accountedFor (ifUnsealed f s).2 + (ifUnsealed f s).1.pending.size = s.pending.size :=
  ifUnsealed_rule (C := fun r => accountedFor r.2 + r.1.pending.size = s.pending.size)
    (fun _ => by simp) fun _ => hf s

/-- The buffer of a sealed slot is empty. -/
def SealedEmpty (s : PohSlot) : Prop := s.sealed = true → s.pending.entries = []

theorem Move.sealedEmpty {P : MergedEntry → Prop} {Q : PohSlot → MergedEntry → Prop}
    {s t : PohSlot} {es : List OrderedEvent} (h : Move P Q k s es t) : SealedEmpty t := by
  cases h with
  | emit p m now _ _ hs hm hidx hp hq => exact fun ht => absurd ht (by simp [hs])
  | skip e _ hs he hgap => exact fun ht => absurd ht (by simp [hs])
  | buffer m now last hs hm hq hidx => exact fun ht => absurd ht (by simp [hs])
  | refuse last hs => exact fun ht => absurd ht (by simp [hs])
  | late m last hs hq hidx => exact fun ht => absurd ht (by simp [hs])
  | close hs hp => exact fun _ => hp

theorem trace_sealedEmpty {P : MergedEntry → Prop} {Q : PohSlot → MergedEntry → Prop}
    {s t : PohSlot} {es : List OrderedEvent} (h : Trace (Move P Q k) s es t)
    (hs : SealedEmpty s) : SealedEmpty t :=
  h.rule (fun t _ => SealedEmpty t) hs fun _ _ _ _ _ hm => hm.sealedEmpty

/-- An arrival is accounted for or buffered, and an overwritten entry is lost. -/
theorem processSlot_conserves {P : MergedEntry → Prop} {s : PohSlot} (hs : Resting P s)
    (hempty : SealedEmpty s) (cfg : Config) (m : MergedEntry) (now : Instant) :
    accountedFor (processSlot cfg s m now).2 + (processSlot cfg s m now).1.pending.size +
      (if overwritesIn cfg s m then 1 else 0) = s.pending.size + 1 := by
  have hnew : ¬s.nextExpectedIdx < m.observation.entryIndex →
      overwritesIn cfg s m = false := by
    intro hle
    have hget : s.pending.get? m.observation.entryIndex = none := by
      cases hget : s.pending.get? m.observation.entryIndex with
      | none => rfl
      | some e => exact absurd (hs.beyondNext _ (SortedMap.get?_eq_some_iff.mp hget)) hle
    simp [overwritesIn, hget]
  refine processSlot_rule cfg now (C := fun r => accountedFor r.2 + r.1.pending.size +
    (if overwritesIn cfg s m then 1 else 0) = s.pending.size + 1) ?_ ?_ ?_ ?_ ?_
  · intro hu
    have hget : s.pending.get? m.observation.entryIndex = none := by
      simp [SortedMap.get?, hempty hu]
    have hkeep : overwritesIn cfg s m = false := by simp [overwritesIn, hget]
    rw [hkeep]
    simp [accountedFor, Nat.add_comm]
  · intro _ hlt
    rw [hnew hlt.le.not_gt]
    simp [accountedFor, Nat.add_comm]
  · intro _ heq
    have hone := accountedFor_emitNext (touch s now) m now false 0
    have hloop := conserves_exec cfg 0 now (fun _ _ => drainConsecutivePending_iteration)
      (emitNext (touch s now) m now false 0).1
    have hp : (emitNext (touch s now) m now false 0).1.pending = s.pending := rfl
    rw [hp] at hloop
    dsimp only
    rw [hnew heq.le.not_gt, accountedFor_append, hone]
    simp only [Bool.false_eq_true, if_false]
    omega
  · intro _ _ hroom
    have hsize := SortedMap.size_insert s.pending m.observation.entryIndex ⟨m, now⟩
    simp only [accountedFor, overwritesIn, hroom, decide_true, Bool.and_true, Effect.total_cons,
      Effect.added_fetchMax, Effect.total_nil]
    omega
  · intro _ _ hfull
    have hkeep : overwritesIn cfg s m = false := by simp [overwritesIn, not_lt.mpr hfull]
    rw [hkeep]
    simp [accountedFor, Nat.add_comm]

/-! ## The worker -/

/-- The slots between two inputs. -/
structure Kept (slots : SortedMap ℕ PohSlot) : Prop where
  resting : AllResting (fun _ => True) slots
  sealedEmpty : ∀ k s, slots.get? k = some s → SealedEmpty s

theorem Kept.getD {slots : SortedMap ℕ PohSlot} (h : Kept slots) (k : ℕ) :
    Resting (Own (fun _ => True) k) ((slots.get? k).getD {}) ∧
      SealedEmpty ((slots.get? k).getD {}) := by
  refine ⟨h.resting.getD k, ?_⟩
  cases hs : slots.get? k with
  | none => exact fun hsealed => absurd hsealed (by simp)
  | some s => exact h.sealedEmpty k s hs

theorem kept_empty : Kept ∅ :=
  ⟨fun k s hs => by simp at hs, fun k s hs => by simp at hs⟩

theorem Kept.process {st : State} (h : Kept st.slots) (cfg : Config) (m : MergedEntry)
    (now : Instant) : Kept (process cfg st m now).1.slots := by
  obtain ⟨hrest, hempty⟩ := h.getD m.observation.slot
  obtain ⟨htr, hr, -⟩ := processSlot_trace (Q := fun _ _ => True) (k := m.observation.slot) cfg now
    hrest ⟨rfl, trivial⟩ fun _ => trivial
  refine ⟨h.resting.insert hr, fun j t ht => ?_⟩
  have ht' : (st.slots.insert m.observation.slot
    (processSlot cfg ((st.slots.get? m.observation.slot).getD {}) m now).1).get? j = some t := ht
  rw [SortedMap.get?_insert] at ht'
  split_ifs at ht' with hj
  · rw [← Option.some.inj ht']
    exact trace_sealedEmpty htr hempty
  · exact h.sealedEmpty j t ht'

/-- After phases A and B. -/
theorem sealedEmpty_sweepSlot {slots : SortedMap ℕ PohSlot} (h : Kept slots) {s : PohSlot}
    (hs : slots.get? k = some s) (cfg : Config) (maxSlot : ℕ) (now : Instant) :
    SealedEmpty (sweepSlot cfg k maxSlot now s).1 :=
  trace_sealedEmpty (sweepSlot_trace (Q := fun _ _ => True) cfg maxSlot now (h.resting k s hs)).1
    (h.sealedEmpty k s hs)

theorem Kept.sweep {st : State} (h : Kept st.slots) (cfg : Config) (now : Instant) :
    Kept (sweep cfg st now).1.slots := by
  refine ⟨allResting_sweep cfg now h.resting, fun k t ht => ?_⟩
  rw [get?_sweep] at ht
  obtain ⟨s, hs, hst⟩ := Option.map_eq_some_iff.mp (Option.filter_eq_some_iff.mp ht).1
  rw [← hst]
  exact sealedEmpty_sweepSlot h hs cfg st.maxSlot now

theorem process_conserves {st : State} (h : Kept st.slots) (cfg : Config) (m : MergedEntry)
    (now : Instant) :
    accountedFor (process cfg st m now).2 + buffered (process cfg st m now).1.slots +
      (if overwritesIn cfg ((st.slots.get? m.observation.slot).getD {}) m then 1 else 0) =
        buffered st.slots + 1 := by
  obtain ⟨hrest, hempty⟩ := h.getD m.observation.slot
  have hslot := processSlot_conserves hrest hempty cfg m now
  have hins := SortedMap.weight_insert (fun s : PohSlot => s.pending.size) st.slots
    m.observation.slot (processSlot cfg ((st.slots.get? m.observation.slot).getD {}) m now).1
  have hold : ((st.slots.get? m.observation.slot).map fun s : PohSlot => s.pending.size).getD 0 =
      ((st.slots.get? m.observation.slot).getD {}).pending.size := by
    cases st.slots.get? m.observation.slot <;> rfl
  rw [hold] at hins
  unfold process buffered
  dsimp only
  omega

theorem visit_conserves {f : ℕ → PohSlot → PohSlot × List Output}
    (hf : ∀ k s, accountedFor (f k s).2 + (f k s).1.pending.size = s.pending.size) (ks : List ℕ)
    (slots : SortedMap ℕ PohSlot) :
    accountedFor (SortedMap.forEach f ks slots).2 + buffered (SortedMap.forEach f ks slots).1 =
      buffered slots :=
  SortedMap.weight_forEach accountedFor_nil accountedFor_append hf ks slots

theorem sweep_conserves {st : State} (h : Kept st.slots) (cfg : Config) (now : Instant) :
    accountedFor (sweep cfg st now).2 + buffered (sweep cfg st now).1.slots =
      buffered st.slots := by
  have hgaps := visit_conserves (f := fun k => ifUnsealed fun s => (sweepGaps cfg k now).exec s)
    (fun k => ifUnsealed_conserves fun s =>
      conserves_exec cfg k now (fun _ _ => sweepGaps_iteration) s) st.slots.keys st.slots
  have hphases := get?_sealPhase cfg st.maxSlot now (SortedMap.forEach
    (fun k => ifUnsealed fun s => (sweepGaps cfg k now).exec s) st.slots.keys st.slots).1
  unfold sweep
  dsimp only
  generalize ha : SortedMap.forEach (fun k => ifUnsealed fun s => (sweepGaps cfg k now).exec s)
    st.slots.keys st.slots = a at hgaps hphases ⊢
  have hseal := visit_conserves (f := fun k => ifUnsealed fun s => sealSlot cfg s k now)
    (fun k => ifUnsealed_conserves sealSlot_conserves) (toSeal cfg st.maxSlot a.1) a.1
  have hdrop : ∀ e ∈ (SortedMap.forEach (fun k => ifUnsealed fun s => sealSlot cfg s k now)
      (toSeal cfg st.maxSlot a.1) a.1).1.entries,
      (decide (e.1 > dropCutoff cfg st.maxSlot) || !e.2.sealed) = false → e.2.pending.size = 0 := by
    rintro ⟨k, t⟩ he hsealed
    have ht := SortedMap.get?_eq_some_iff.mpr he
    rw [hphases, ← ha, get?_visit_keys, Option.map_map] at ht
    obtain ⟨s, hs, rfl⟩ := Option.map_eq_some_iff.mp ht
    have hempty := sealedEmpty_sweepSlot h hs cfg st.maxSlot now
    simp only [Bool.or_eq_false_iff, Bool.not_eq_false'] at hsealed
    have hmove : (sweepSlot cfg k st.maxSlot now s).1 = if lagsBehind cfg st.maxSlot k then
        (ifUnsealed (fun s => sealSlot cfg s k now)
          (ifUnsealed (fun s => (sweepGaps cfg k now).exec s) s).1).1
        else (ifUnsealed (fun s => (sweepGaps cfg k now).exec s) s).1 := by
      unfold sweepSlot
      split_ifs <;> rfl
    rw [hmove] at hempty
    exact List.length_eq_zero_iff.mpr (hempty hsealed.2)
  rw [accountedFor_append]
  unfold buffered at *
  rw [SortedMap.weight_retain hdrop]
  omega

/-! ## Whole runs -/

theorem step_conserves {st : State} (h : Kept st.slots) (cfg : Config) (i : Input) :
    accountedFor ((machine cfg).step st i).2 + buffered ((machine cfg).step st i).1.slots +
      (if overwrites cfg st i then 1 else 0) = buffered st.slots + arrivals [i] := by
  cases i with
  | arrival m now =>
    let st' := { st with maxSlot := max st.maxSlot m.observation.slot }
    have h' : Kept st'.slots := h
    exact process_conserves h' cfg m now
  | sweep now =>
    have hsweep := sweep_conserves h cfg now
    have hstep : (machine cfg).step st (.sweep now) = sweep cfg st now := rfl
    rw [hstep]
    simpa [overwrites, arrivals] using hsweep

theorem kept_run (cfg : Config) (is : List Input) : Kept ((machine cfg).run {} is).1.slots := by
  refine (machine cfg).run_invariant (fun st => Kept st.slots) kept_empty (fun st i h => ?_) is
  cases i with
  | arrival m now =>
    let st' := { st with maxSlot := max st.maxSlot m.observation.slot }
    have h' : Kept st'.slots := h
    exact h'.process cfg m now
  | sweep now => exact Kept.sweep h cfg now

/-- In every reachable state every entry taken in is emitted, counted as dropped or still
buffered, iff no arrival so far found its index in the buffer of its slot. -/
theorem conserved_iff (cfg : Config) (is : List Input) :
    Conserved cfg is ↔ (machine cfg).Along (fun st i => overwrites cfg st i = false) {} is := by
  refine EventMachine.along_iff_balanced (overwrites cfg) arrivals accountedFor
    (fun st => buffered st.slots) rfl accountedFor_append (fun is i => ?_) is
  have hstep := step_conserves (kept_run cfg is) cfg i
  have harr : arrivals (is ++ [i]) = arrivals is + arrivals [i] := List.countP_append
  omega

/-- A second copy of a buffered entry takes its place, and one of the two is gone. -/
theorem overwritten_entry_lost :
    ¬∀ (cfg : Config) (is : List Input), Conserved cfg is := by
  intro h
  have htwo := h defaultConfig
    [.arrival (sampleEntry 7 1 0 11) 0, .arrival (sampleEntry 7 1 0 11) 1]
  revert htwo
  unfold Conserved
  decide +kernel

end SolanaBench.TickTrigger.PohSupervisor
