import SolanaBench.TickTrigger.PohConservation
import SolanaBench.TickTrigger.PohOrder

/-! What the shared counters can add up to. Every update that is made for a slot is paid for
by an arrival of the slot, so `2 ^ 32` per arrival bounds each counter. -/
namespace SolanaBench.TickTrigger.PohSupervisor

/-- The indices from the expected one up to the highest buffered one. -/
def gapsAhead (s : PohSlot) : ℕ :=
  match s.pending.lastKeyValue with
  | none => 0
  | some e => e.1.val - s.nextExpectedIdx.val

/-- The most that what a slot holds can still add to a counter. -/
def owed (c : Counter) (s : PohSlot) : ℕ :=
  match c with
  | .entriesMissingTimeout => gapsAhead s
  | .slotsComplete | .slotsIncomplete | .slotsWithMissing => if s.sealed then 0 else 1
  | _ => U32.MAX * s.pending.size

variable {P : MergedEntry → Prop} {cfg : Config} {now : Instant} {k : ℕ} {c : Counter}

theorem gapsAhead_le (s : PohSlot) : gapsAhead s ≤ U32.MAX := by
  unfold gapsAhead
  split
  · exact Nat.zero_le _
  · next e _ => exact (Nat.sub_le _ _).trans (Nat.le_sub_one_of_lt e.1.isLt)

theorem gapsAhead_of_last {s : PohSlot} {e : U32 × PendingEntry}
    (h : s.pending.lastKeyValue = some e) :
    gapsAhead s = e.1.val - s.nextExpectedIdx.val := by
  simp [gapsAhead, h]

/-- The gaps ahead shrink with the buffer and with every step of the expected index. -/
theorem gapsAhead_mono {s t : PohSlot}
    (h : ∀ e, t.pending.lastKeyValue = some e → s.pending.lastKeyValue = some e ∧
      s.nextExpectedIdx.val ≤ t.nextExpectedIdx.val) : gapsAhead t ≤ gapsAhead s := by
  cases hl : t.pending.lastKeyValue with
  | none => simp [gapsAhead, hl]
  | some e =>
    obtain ⟨hs, hle⟩ := h e hl
    rw [gapsAhead_of_last hl, gapsAhead_of_last hs]
    exact Nat.sub_le_sub_left hle _

/-- An expected index below a buffered one does not wrap. -/
theorem val_add_one_of_mem {s : PohSlot} (h : BeyondNext s) {e : U32 × PendingEntry}
    (he : e ∈ s.pending.entries) :
    (s.nextExpectedIdx + 1).val = s.nextExpectedIdx.val + 1 := by
  have hlt := Fin.lt_def.mp (h e he)
  have hmax := e.1.isLt
  exact val_add_one_of_lt (by omega)

theorem mem_of_lastKeyValue {p : SortedMap U32 PendingEntry} {e : U32 × PendingEntry}
    (h : p.lastKeyValue = some e) : e ∈ p.entries := List.mem_of_getLast? h

/-! ## The loops -/

theorem gapsAhead_emitPending {s : PohSlot} {e : U32 × PendingEntry}
    (h : s.pending.firstKeyValue = some e) (hidx : e.1 = s.nextExpectedIdx) (now : Instant) :
    gapsAhead (emitPending s e.2 now).1 ≤ gapsAhead s := by
  refine gapsAhead_mono fun l hl => ?_
  have hl' : s.pending.popFirst.lastKeyValue = some l := hl
  have hmem := mem_of_lastKeyValue hl'
  have hlt : s.nextExpectedIdx.val < l.1.val :=
    hidx ▸ Fin.lt_def.mp (SortedMap.firstKeyValue_lt h l hmem)
  have hsmall : s.nextExpectedIdx.val < 2 ^ 32 - 1 := by
    have hmax := l.1.isLt
    omega
  have hnext : (emitPending s e.2 now).1.nextExpectedIdx.val = s.nextExpectedIdx.val + 1 :=
    val_add_one_of_lt hsmall
  refine ⟨?_, by omega⟩
  cases hs : s.pending.lastKeyValue with
  | none => simp [SortedMap.lastKeyValue_eq_none.mp hs, SortedMap.popFirst] at hmem
  | some f => rw [← SortedMap.lastKeyValue_popFirst (List.ne_nil_of_mem hmem) hs, hl']

theorem gapsAhead_emitMissing {s : PohSlot} (hs : BeyondNext s) {e : U32 × PendingEntry}
    (he : e ∈ s.pending.entries) (cfg : Config) (k : ℕ) (now : Instant) :
    gapsAhead (emitMissing cfg s k now).1 + 1 = gapsAhead s := by
  cases hl : s.pending.lastKeyValue with
  | none => simp [SortedMap.lastKeyValue_eq_none.mp hl] at he
  | some l =>
    have hl' : (emitMissing cfg s k now).1.pending.lastKeyValue = some l := hl
    have hnext : (emitMissing cfg s k now).1.nextExpectedIdx.val = s.nextExpectedIdx.val + 1 :=
      val_add_one_of_mem hs he
    have hlt := Fin.lt_def.mp (hs l (mem_of_lastKeyValue hl))
    rw [gapsAhead_of_last hl, gapsAhead_of_last hl', hnext]
    omega

theorem total_emitNext_le (c : Counter) (s : PohSlot) (m : MergedEntry) (now : Instant) :
    Effect.total c (emitNext s m now false 0).2 ≤ 1 := by
  simp only [emitNext, emitEntry, Bool.false_eq_true, if_false, List.cons_append, List.nil_append,
    Effect.total_cons, Effect.total_nil, Effect.added_fetchAdd, Effect.added_send]
  split_ifs <;> omega

/-- An iteration is paid for by the place its entry had in the buffer, or by the gap it fills. -/
theorem DrainIteration.owed_le {s : PohSlot} {r : PohSlot × List Output}
    (h : DrainIteration cfg k now s r) (hs : Opened P s) (c : Counter) :
    Effect.total c r.2 + owed c r.1 ≤ owed c s := by
  obtain ⟨e, he, ⟨heq, rfl⟩ | ⟨hne, rfl⟩⟩ := h
  · have hwait : waitUs e.2 now ≤ U32.MAX := Nat.min_le_right _ _
    have hone : 1 ≤ U32.MAX := by decide
    have hgaps := gapsAhead_emitPending he heq now
    have hpay : U32.MAX * s.pending.size = U32.MAX * s.pending.popFirst.size + U32.MAX := by
      rw [SortedMap.size_popFirst he, Nat.mul_succ]
    have hp : (emitPending s e.2 now).1.pending = s.pending.popFirst := rfl
    have hsealed : (emitPending s e.2 now).1.sealed = s.sealed := rfl
    obtain ⟨x, hx⟩ : ∃ x, (emitPending s e.2 now).2 = [.fetchAdd .entriesEmittedReordered 1,
        .fetchAdd .reorderWaitSumUs (waitUs e.2 now),
        .fetchMax .reorderWaitMaxUs (waitUs e.2 now), .send x] := ⟨_, rfl⟩
    rw [hx]
    generalize (emitPending s e.2 now).1 = t at hgaps hp hsealed ⊢
    cases c <;> simp only [owed, hp, hsealed, hpay] <;> simp <;> omega
  · have hgaps := gapsAhead_emitMissing (beyondNext_of_first_ne hs.atLeastNext he hne)
      (SortedMap.firstKeyValue_mem he) cfg k now
    have hp : (emitMissing cfg s k now).1.pending = s.pending := rfl
    have hsealed : (emitMissing cfg s k now).1.sealed = s.sealed := rfl
    obtain ⟨x, hx⟩ : ∃ x, (emitMissing cfg s k now).2 =
        [.fetchAdd .entriesMissingTimeout 1, .send x] := ⟨_, rfl⟩
    rw [hx]
    generalize (emitMissing cfg s k now).1 = t at hgaps hp hsealed ⊢
    cases c <;> simp [owed, hp, hsealed]
    omega

/-- So is a whole loop. -/
theorem exec_owed_le (cfg : Config) (k : ℕ) (now : Instant) {L : WhileLoop PohSlot Output}
    (hL : ∀ s r, L.body s = some r → DrainIteration cfg k now s r) {s : PohSlot}
    (hs : Opened P s) (c : Counter) :
    Effect.total c (L.exec s).2 + owed c (L.exec s).1 ≤ owed c s := by
  exact (L.exec_rule (fun t os => Opened P t ∧ Effect.total c os + owed c t ≤ owed c s)
    ⟨hs, by simp⟩ (by
      intro t os u es hpaid hb
      obtain ⟨ht, hpaid⟩ := hpaid
      have hit := hL t (u, es) hb
      have hstep := hit.owed_le ht c
      refine ⟨(hit.opened ht).1, ?_⟩
      dsimp only at hstep
      rw [Effect.total_append]
      omega)).2

/-! ## The calls -/

theorem gapsAhead_closed (s : PohSlot) : gapsAhead { s with sealed := true } = gapsAhead s := rfl

/-- The updates that close a slot are paid for by the slot being open. -/
theorem closing_owed_le {t : PohSlot} (ht : t.sealed = false) (missing : Bool) (u : PohSlot)
    (k : ℕ) (c : Counter) :
    Effect.total c ((if missing then [.fetchAdd .slotsWithMissing 1] else [] : List Output) ++
      [.fetchAdd (terminalCounter u) 1, .send (terminalEvent u k)]) +
        owed c { t with sealed := true } ≤ owed c t := by
  unfold terminalCounter
  cases c <;> cases missing <;> split_ifs <;> simp [owed, ht, gapsAhead_closed]

theorem sealSlot_owed_le (cfg : Config) (k : ℕ) (now : Instant) {s : PohSlot} (hs : Opened P s)
    (c : Counter) :
    Effect.total c (sealSlot cfg s k now).2 + owed c (sealSlot cfg s k now).1 ≤ owed c s := by
  unfold sealSlot
  cases hlast : s.pending.lastKeyValue with
  | none =>
    dsimp only
    rw [List.nil_append]
    exact closing_owed_le hs.unsealed ..
  | some e =>
    have hloop := exec_owed_le cfg k now (L := flushPending cfg k now e.1)
      (fun _ _ => flushPending_iteration) hs c
    have hopen := (exec_trace (Q := fun _ _ => True) (k := k) cfg now
      (L := flushPending cfg k now e.1) (fun _ _ => flushPending_iteration) hs).2.1
    have hclose := closing_owed_le hopen.unsealed
      ((flushPending cfg k now e.1).exec s).1.hasMissing
      { ((flushPending cfg k now e.1).exec s).1 with sealed := true } k c
    dsimp only
    rw [List.append_assoc, Effect.total_append, Nat.add_assoc]
    exact (Nat.add_le_add_left hclose _).trans hloop

theorem owed_congr {s t : PohSlot} (hp : t.pending = s.pending)
    (hnext : t.nextExpectedIdx = s.nextExpectedIdx) (hsealed : t.sealed = s.sealed)
    (c : Counter) : owed c t = owed c s := by
  unfold owed gapsAhead
  rw [hp, hnext, hsealed]

/-- Emitting an arrival leaves the buffer alone and closes a gap before it. -/
theorem owed_emitNext_le {s : PohSlot} (hs : BeyondNext s) (m : MergedEntry) (now : Instant)
    (c : Counter) : owed c (emitNext (touch s now) m now false 0).1 ≤ owed c s := by
  have hp : (emitNext (touch s now) m now false 0).1.pending = s.pending := rfl
  have hsealed : (emitNext (touch s now) m now false 0).1.sealed = s.sealed := rfl
  have hgaps : gapsAhead (emitNext (touch s now) m now false 0).1 ≤ gapsAhead s := by
    refine gapsAhead_mono fun e he => ⟨he, ?_⟩
    have hnext : (emitNext (touch s now) m now false 0).1.nextExpectedIdx.val =
        s.nextExpectedIdx.val + 1 := val_add_one_of_mem hs (mem_of_lastKeyValue he)
    omega
  generalize (emitNext (touch s now) m now false 0).1 = t at hp hsealed hgaps ⊢
  cases c <;> simp [owed, hp, hsealed, hgaps]

/-- A buffered entry can cost a place in the buffer or the gaps before it. -/
theorem owed_buffered_le {s t : PohSlot} (idx : U32) (p : PendingEntry)
    (hp : t.pending = s.pending.insert idx p) (hsealed : t.sealed = s.sealed) (c : Counter) :
    owed c t ≤ owed c s + U32.MAX := by
  have hgaps := gapsAhead_le t
  have hsize : (s.pending.insert idx p).size ≤ s.pending.size + 1 := by
    have hins := SortedMap.size_insert s.pending idx p
    omega
  have hpay : U32.MAX * (s.pending.insert idx p).size ≤ U32.MAX * s.pending.size + U32.MAX :=
    Nat.mul_le_mul_left _ hsize
  cases c <;> simp only [owed, hp, hsealed] <;> omega

/-- An arrival pays for itself, and for the place and the gaps of the entry it brings. -/
theorem processSlot_owed_le (cfg : Config) (now : Instant) {s : PohSlot} (hs : Resting P s)
    (m : MergedEntry) (c : Counter) :
    Effect.total c (processSlot cfg s m now).2 + owed c (processSlot cfg s m now).1 ≤
      owed c s + U32.MAX := by
  have hone : 1 ≤ U32.MAX := by decide
  -- a single count of one that leaves what is owed alone
  have hcount : ∀ (c' : Counter) (t : PohSlot), owed c t = owed c s →
      Effect.total c [(.fetchAdd c' 1 : Output)] + owed c t ≤ owed c s + U32.MAX := by
    intro c' t ht
    rw [ht]
    simp only [Effect.total_cons, Effect.added_fetchAdd, Effect.total_nil]
    split_ifs <;> omega
  refine processSlot_rule cfg now
    (C := fun r => Effect.total c r.2 + owed c r.1 ≤ owed c s + U32.MAX) ?_ ?_ ?_ ?_ ?_
  · exact fun _ => hcount _ s rfl
  · exact fun _ _ => hcount _ _ (owed_congr rfl rfl rfl c)
  · intro hu heq
    dsimp only
    have hemit := total_emitNext_le c (touch s now) m now
    have howed := owed_emitNext_le hs.beyondNext m now c
    have hopen : Opened (fun _ => True) (emitNext (touch s now) m now false 0).1 :=
      ⟨hu, fun e he => ⟨trivial, (hs.buffered e he).2⟩, atLeastNext_of_beyond hs.beyondNext rfl⟩
    have hloop := exec_owed_le cfg 0 now (L := drainConsecutivePending now)
      (fun _ _ => drainConsecutivePending_iteration) hopen c
    rw [Effect.total_append]
    omega
  · intro _ _ _
    dsimp only
    have hbuf := owed_buffered_le (s := s)
      (t := { touch s now with pending := s.pending.insert m.observation.entryIndex ⟨m, now⟩ })
      m.observation.entryIndex ⟨m, now⟩ rfl rfl c
    simpa using hbuf
  · exact fun _ _ _ => hcount _ _ (owed_congr rfl rfl rfl c)

/-! ## The worker -/

/-- What all slots hold can still add to a counter. -/
def outstanding (c : Counter) (slots : SortedMap ℕ PohSlot) : ℕ := SortedMap.weight (owed c) slots

theorem owed_new_le (c : Counter) : owed c {} ≤ 1 := by
  cases c <;> decide

theorem visit_owed_le {f : ℕ → PohSlot → PohSlot × List Output}
    (hf : ∀ k s, Resting (Own (fun _ => True) k) s → Resting (Own (fun _ => True) k) (f k s).1 ∧
      Effect.total c (f k s).2 + owed c (f k s).1 ≤ owed c s) (ks : List ℕ)
    {slots : SortedMap ℕ PohSlot} (h : AllResting (fun _ => True) slots) :
    Effect.total c (SortedMap.forEach f ks slots).2 +
      outstanding c (SortedMap.forEach f ks slots).1 ≤ outstanding c slots :=
  SortedMap.weight_forEach_le (Effect.total_nil c) (Effect.total_append c) hf ks h

theorem sweepGaps_visit_owed_le (cfg : Config) (now : Instant) (ks : List ℕ)
    {slots : SortedMap ℕ PohSlot} (h : AllResting (fun _ => True) slots) (c : Counter) :
    let r := SortedMap.forEach (fun k => ifUnsealed fun s => (sweepGaps cfg k now).exec s) ks slots
    Effect.total c r.2 + outstanding c r.1 ≤ outstanding c slots := by
  refine visit_owed_le (fun k s hs => ⟨(ownVisit_sweepGaps cfg now k s hs).1, ?_⟩) ks h
  refine ifUnsealed_rule (C := fun r => Effect.total c r.2 + owed c r.1 ≤ owed c s)
    (fun _ => by simp) fun hu => ?_
  exact exec_owed_le cfg k now (fun _ _ => sweepGaps_iteration) (hs.opened hu) c

theorem sealSlot_visit_owed_le (cfg : Config) (now : Instant) (ks : List ℕ)
    {slots : SortedMap ℕ PohSlot} (h : AllResting (fun _ => True) slots) (c : Counter) :
    let r := SortedMap.forEach (fun k => ifUnsealed fun s => sealSlot cfg s k now) ks slots
    Effect.total c r.2 + outstanding c r.1 ≤ outstanding c slots := by
  refine visit_owed_le (fun k s hs => ⟨(ownVisit_sealSlot cfg now k s hs).1, ?_⟩) ks h
  refine ifUnsealed_rule (C := fun r => Effect.total c r.2 + owed c r.1 ≤ owed c s)
    (fun _ => by simp) fun hu => ?_
  exact sealSlot_owed_le cfg k now (hs.opened hu) c

theorem sweep_owed_le {st : State} (h : AllResting (fun _ => True) st.slots) (cfg : Config)
    (now : Instant) (c : Counter) :
    Effect.total c (sweep cfg st now).2 + outstanding c (sweep cfg st now).1.slots ≤
      outstanding c st.slots := by
  have hgaps := sweepGaps_visit_owed_le cfg now st.slots.keys h c
  have hrest := allResting_sweepGaps cfg now h
  unfold sweep
  dsimp only at hgaps ⊢
  generalize SortedMap.forEach (fun k => ifUnsealed fun s => (sweepGaps cfg k now).exec s)
    st.slots.keys st.slots = a at hgaps hrest ⊢
  have hseal := sealSlot_visit_owed_le cfg now (toSeal cfg st.maxSlot a.1) hrest c
  dsimp only at hseal
  have hdrop := SortedMap.weight_retain_le (owed c)
    (fun s slot => decide (s > dropCutoff cfg st.maxSlot) || !slot.sealed)
    (SortedMap.forEach (fun k => ifUnsealed fun s => sealSlot cfg s k now)
      (toSeal cfg st.maxSlot a.1) a.1).1
  rw [Effect.total_append]
  unfold outstanding at *
  omega

/-- A new slot owes its terminal event, which the arrival that creates it pays for. -/
theorem process_owed_le {st : State} (h : AllResting (fun _ => True) st.slots) (cfg : Config)
    (m : MergedEntry) (now : Instant) (c : Counter) :
    Effect.total c (process cfg st m now).2 + outstanding c (process cfg st m now).1.slots ≤
      outstanding c st.slots + 2 ^ 32 := by
  have hmax : U32.MAX + 1 = 2 ^ 32 := rfl
  have hnew := owed_new_le c
  have hins := SortedMap.weight_insert (owed c) st.slots m.observation.slot
    (processSlot cfg ((st.slots.get? m.observation.slot).getD {}) m now).1
  unfold process outstanding
  dsimp only
  cases hs : st.slots.get? m.observation.slot with
  | none =>
    have hslot := processSlot_owed_le cfg now (resting_new (P := fun _ => True)) m c
    simp only [hs, Option.map_none, Option.getD_none] at hins hslot ⊢
    omega
  | some s =>
    have hslot := processSlot_owed_le cfg now (h _ s hs) m c
    simp only [hs, Option.map_some, Option.getD_some] at hins hslot ⊢
    omega

/-! ## Whole runs -/

theorem step_owed_le {st : State} (h : AllResting (fun _ => True) st.slots) (cfg : Config)
    (i : Input) (c : Counter) :
    Effect.total c ((machine cfg).step st i).2 + outstanding c ((machine cfg).step st i).1.slots ≤
      outstanding c st.slots + 2 ^ 32 * arrivals [i] := by
  cases i with
  | arrival m now =>
    let st' := { st with maxSlot := max st.maxSlot m.observation.slot }
    have h' : AllResting (fun _ => True) st'.slots := h
    exact process_owed_le h' cfg m now c
  | sweep now => exact sweep_owed_le h cfg now c

theorem allResting_run (cfg : Config) (is : List Input) :
    AllResting (fun _ => True) ((machine cfg).run {} is).1.slots := (kept_run cfg is).resting

/-- What has been added to a counter, and what is outstanding, was paid for by the arrivals. -/
theorem total_run_le (cfg : Config) (is : List Input) (c : Counter) :
    Effect.total c ((machine cfg).run {} is).2 + outstanding c ((machine cfg).run {} is).1.slots ≤
      2 ^ 32 * arrivals is := by
  induction is using List.reverseRecOn with
  | nil => simp [outstanding]
  | append_singleton is i ih =>
    have hstep := step_owed_le (allResting_run cfg is) cfg i c
    have harr : arrivals (is ++ [i]) = arrivals is + arrivals [i] := List.countP_append
    rw [EventMachine.run_snoc, harr, Effect.total_append]
    dsimp only
    omega

/-- From start to shutdown a counter grows by at most `2 ^ 32` for each arrival. -/
theorem total_runLoop_le (cfg : Config) (is : List Input) (now : Instant) (c : Counter) :
    Effect.total c (((machine cfg).run {} is).2 ++
      (shutdown cfg ((machine cfg).run {} is).1 now).2) ≤ 2 ^ 32 * arrivals is := by
  have hrun := total_run_le cfg is c
  have hrest := allResting_run cfg is
  generalize (machine cfg).run {} is = r at hrun hrest ⊢
  have hsweep := sweep_owed_le hrest cfg now c
  have hseal := sealSlot_visit_owed_le cfg now (sweep cfg r.1 now).1.slots.keys
    (allResting_sweep cfg now hrest) c
  dsimp only at hseal
  unfold shutdown
  dsimp only
  rw [Effect.total_append, Effect.total_append]
  omega

end SolanaBench.TickTrigger.PohSupervisor
