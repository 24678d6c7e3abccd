import SolanaBench.Lib.Trace
import SolanaBench.TickTrigger.PohSupervisor

/-! What can happen to the state of one slot. Every call of the supervisor on an
unsealed slot is a trace of `Move`s, so a property of slots is proved once per
move and not once per code path. -/
namespace SolanaBench.TickTrigger.PohSupervisor

/-- The state after an entry was emitted in order and `p` is left in the buffer. -/
def emitted (s : PohSlot) (p : SortedMap U32 PendingEntry) (m : MergedEntry) (now : Instant) :
    PohSlot :=
  { trackEntry s m.observation now with nextExpectedIdx := s.nextExpectedIdx + 1, pending := p }

/-- The state after a gap at the expected index was given up. -/
def skipped (s : PohSlot) : PohSlot :=
  { s with
    missingCount := satAddU32 s.missingCount 1
    hasMissing := true
    nextExpectedIdx := s.nextExpectedIdx + 1 }

def entryEventOf (s : PohSlot) (m : MergedEntry) (now : Instant) (wasReordered : Bool)
    (waitUs : ℕ) : OrderedEvent :=
  .entry (entryEvent (trackEntry s m.observation now) m.observation wasReordered waitUs)

section Fields

variable (s : PohSlot) (p : SortedMap U32 PendingEntry) (m : MergedEntry) (now : Instant)

@[simp] theorem emitted_nextExpectedIdx :
    (emitted s p m now).nextExpectedIdx = s.nextExpectedIdx + 1 := rfl
@[simp] theorem emitted_pending : (emitted s p m now).pending = p := rfl
@[simp] theorem emitted_tickIdx : (emitted s p m now).tickIdx = tickAfter s m.observation := rfl
@[simp] theorem emitted_lastEntryHash :
    (emitted s p m now).lastEntryHash = some m.observation.entryHash := rfl
@[simp] theorem emitted_lastEntryIndex :
    (emitted s p m now).lastEntryIndex = m.observation.entryIndex := rfl
@[simp] theorem emitted_hasMissing : (emitted s p m now).hasMissing = s.hasMissing := rfl
@[simp] theorem emitted_missingCount : (emitted s p m now).missingCount = s.missingCount := rfl
@[simp] theorem emitted_totalEmitted :
    (emitted s p m now).totalEmitted = satAddU32 s.totalEmitted 1 := rfl
@[simp] theorem emitted_sealed : (emitted s p m now).sealed = s.sealed := rfl

@[simp] theorem skipped_nextExpectedIdx :
    (skipped s).nextExpectedIdx = s.nextExpectedIdx + 1 := rfl
@[simp] theorem skipped_pending : (skipped s).pending = s.pending := rfl
@[simp] theorem skipped_tickIdx : (skipped s).tickIdx = s.tickIdx := rfl
@[simp] theorem skipped_lastEntryHash : (skipped s).lastEntryHash = s.lastEntryHash := rfl
@[simp] theorem skipped_lastEntryIndex : (skipped s).lastEntryIndex = s.lastEntryIndex := rfl
@[simp] theorem skipped_hasMissing : (skipped s).hasMissing = true := rfl
@[simp] theorem skipped_missingCount :
    (skipped s).missingCount = satAddU32 s.missingCount 1 := rfl
@[simp] theorem skipped_totalEmitted : (skipped s).totalEmitted = s.totalEmitted := rfl
@[simp] theorem skipped_sealed : (skipped s).sealed = s.sealed := rfl

end Fields

/-- Every buffered key is at or beyond the expected index. -/
def AtLeastNext (s : PohSlot) : Prop := ∀ e ∈ s.pending.entries, s.nextExpectedIdx ≤ e.1

/-- Every buffered key is beyond the expected index: the state between two calls. -/
def BeyondNext (s : PohSlot) : Prop := ∀ e ∈ s.pending.entries, s.nextExpectedIdx < e.1

/-- `P` holds of the entries let in, and each is buffered under its own index. -/
def Buffered (P : MergedEntry → Prop) (s : PohSlot) : Prop :=
  ∀ e ∈ s.pending.entries, P e.2.merged ∧ e.2.merged.observation.entryIndex = e.1

/-- The moves of slot `k`. `P` is assumed of every entry that arrives, and `Q` of
every arrival together with the state it finds. -/
inductive Move (P : MergedEntry → Prop) (Q : PohSlot → MergedEntry → Prop) (k : ℕ) :
    PohSlot → List OrderedEvent → PohSlot → Prop
  | emit (s p m now wasReordered waitUs) (hs : s.sealed = false) (hm : P m)
      (hidx : m.observation.entryIndex = s.nextExpectedIdx)
      (hp : ∀ e ∈ p.entries, e ∈ s.pending.entries ∧ s.nextExpectedIdx < e.1)
      (hq : Q s m ∨ ∃ e ∈ s.pending.entries, e.2.merged = m) :
      Move P Q k s [entryEventOf s m now wasReordered waitUs] (emitted s p m now)
  | skip (s e waitUs) (hs : s.sealed = false) (he : e ∈ s.pending.entries)
      (hgap : BeyondNext s) :
      Move P Q k s [.missing ⟨k, s.nextExpectedIdx, waitUs⟩] (skipped s)
  | buffer (s m now last) (hs : s.sealed = false) (hm : P m) (hq : Q s m)
      (hidx : s.nextExpectedIdx < m.observation.entryIndex) :
      Move P Q k s []
        { s with
          lastEmitAt := last
          pending := s.pending.insert m.observation.entryIndex ⟨m, now⟩ }
  | refuse (s last) (hs : s.sealed = false) : Move P Q k s [] { s with lastEmitAt := last }
  | late (s m last) (hs : s.sealed = false) (hq : Q s m)
      (hidx : m.observation.entryIndex < s.nextExpectedIdx) :
      Move P Q k s [] { s with lastEmitAt := last, tickIdx := tickAfter s m.observation }
  | close (s) (hs : s.sealed = false) (hp : s.pending.entries = []) :
      Move P Q k s [terminalEvent s k] { s with sealed := true }

section

variable {P : MergedEntry → Prop} {Q : PohSlot → MergedEntry → Prop} {k : ℕ}

theorem BeyondNext.atLeastNext {s : PohSlot} (h : BeyondNext s) : AtLeastNext s :=
  fun e he => (h e he).le

theorem beyondNext_of_pending_nil {s : PohSlot} (h : s.pending.entries = []) : BeyondNext s := by
  intro e he
  simp [h] at he

theorem buffered_of_pending_nil {s : PohSlot} (h : s.pending.entries = []) : Buffered P s := by
  intro e he
  simp [h] at he

/-- A first key that is not the expected index is beyond it, and so are the others. -/
theorem beyondNext_of_first_ne {s : PohSlot} {e : U32 × PendingEntry} (hs : AtLeastNext s)
    (he : s.pending.firstKeyValue = some e) (hne : e.1 ≠ s.nextExpectedIdx) : BeyondNext s := by
  have hlt : s.nextExpectedIdx < e.1 :=
    lt_of_le_of_ne (hs e (SortedMap.firstKeyValue_mem he)) (Ne.symm hne)
  exact fun x hx => hlt.trans_le (SortedMap.firstKeyValue_le he x hx)

theorem atLeastNext_of_beyond {s : PohSlot} {n : U32} (h : ∀ e ∈ s.pending.entries, n < e.1)
    (hn : s.nextExpectedIdx = n + 1) : AtLeastNext s := by
  intro e he
  rw [hn]
  exact Fin.add_one_le_of_lt (h e he)

/-- Every state inside a call keeps its buffer at or beyond the expected index. -/
theorem Move.atLeastNext {s t : PohSlot} {es : List OrderedEvent} (h : Move P Q k s es t)
    (hs : AtLeastNext s) : AtLeastNext t := by
  cases h with
  | emit p m now _ _ hs' hm hidx hp hq => exact atLeastNext_of_beyond (fun e he => (hp e he).2) rfl
  | skip e _ hs' he hgap => exact atLeastNext_of_beyond hgap rfl
  | buffer m now last hs' hm hq hidx =>
    intro e he
    rcases (SortedMap.mem_insert _).mp he with rfl | ⟨he, -⟩
    · exact hidx.le
    · exact hs e he
  | refuse last hs' => exact hs
  | late m last hs' hq hidx => exact hs
  | close hs' hp => exact hs

theorem Move.buffered {s t : PohSlot} {es : List OrderedEvent} (h : Move P Q k s es t)
    (hs : Buffered P s) : Buffered P t := by
  cases h with
  | emit p m now _ _ hs' hm hidx hp hq => exact fun e he => hs e (hp e he).1
  | skip e _ hs' he hgap => exact hs
  | buffer m now last hs' hm hq hidx =>
    intro e he
    rcases (SortedMap.mem_insert _).mp he with rfl | ⟨he, -⟩
    · exact ⟨hm, rfl⟩
    · exact hs e he
  | refuse last hs' => exact hs
  | late m last hs' hq hidx => exact hs
  | close hs' hp => exact hs

/-! ## The loops -/

/-- The state inside a call on an unsealed slot. -/
structure Opened (P : MergedEntry → Prop) (s : PohSlot) : Prop where
  unsealed : s.sealed = false
  buffered : Buffered P s
  atLeastNext : AtLeastNext s

/-- One iteration of any of the three loops: the first pending entry is emitted
if it is expected, otherwise the gap before it is given up. -/
def DrainIteration (cfg : Config) (k : ℕ) (now : Instant) (s : PohSlot)
    (r : PohSlot × List Output) : Prop :=
  ∃ e, s.pending.firstKeyValue = some e ∧
    (e.1 = s.nextExpectedIdx ∧ r = emitPending s e.2 now ∨
      e.1 ≠ s.nextExpectedIdx ∧ r = emitMissing cfg s k now)

variable {cfg : Config} {now : Instant}

theorem drainConsecutivePending_iteration {s : PohSlot} {r : PohSlot × List Output}
    (h : (drainConsecutivePending now).body s = some r) : DrainIteration cfg k now s r := by
  simp only [drainConsecutivePending] at h
  split at h
  · next e he =>
    split_ifs at h with hne
    exact ⟨e, he, Or.inl ⟨not_not.mp hne, (Option.some.inj h).symm⟩⟩
  · simp at h

theorem sweepGaps_iteration {s : PohSlot} {r : PohSlot × List Output}
    (h : (sweepGaps cfg k now).body s = some r) : DrainIteration cfg k now s r := by
  simp only [sweepGaps] at h
  split at h
  · next e he =>
    split_ifs at h with heq htime
    · exact ⟨e, he, Or.inl ⟨heq, (Option.some.inj h).symm⟩⟩
    · exact ⟨e, he, Or.inr ⟨heq, (Option.some.inj h).symm⟩⟩
  · simp at h

theorem flushPending_iteration {s : PohSlot} {r : PohSlot × List Output} {maxIdx : U32}
    (h : (flushPending cfg k now maxIdx).body s = some r) : DrainIteration cfg k now s r := by
  simp only [flushPending] at h
  split_ifs at h with hle
  split at h
  · next e he =>
    split_ifs at h with heq
    · exact ⟨e, he, Or.inl ⟨heq, (Option.some.inj h).symm⟩⟩
    · exact ⟨e, he, Or.inr ⟨heq, (Option.some.inj h).symm⟩⟩
  · simp at h

theorem DrainIteration.move {s : PohSlot} {r : PohSlot × List Output}
    (h : DrainIteration cfg k now s r) (hs : Opened P s) :
    Move P Q k s (Effect.sent r.2) r.1 := by
  obtain ⟨e, he, ⟨heq, rfl⟩ | ⟨hne, rfl⟩⟩ := h
  · have hmem := SortedMap.firstKeyValue_mem he
    obtain ⟨hP, hidx⟩ := hs.buffered e hmem
    have hrest : ∀ x ∈ s.pending.popFirst.entries,
        x ∈ s.pending.entries ∧ s.nextExpectedIdx < x.1 := fun x hx =>
      ⟨SortedMap.mem_popFirst hx, heq ▸ SortedMap.firstKeyValue_lt he x hx⟩
    exact Move.emit s s.pending.popFirst e.2.merged now true (waitUs e.2 now) hs.unsealed hP
      (hidx.trans heq) hrest (Or.inr ⟨e, hmem, rfl⟩)
  · exact Move.skip s e _ hs.unsealed (SortedMap.firstKeyValue_mem he)
      (beyondNext_of_first_ne hs.atLeastNext he hne)

theorem DrainIteration.opened {s : PohSlot} {r : PohSlot × List Output}
    (h : DrainIteration cfg k now s r) (hs : Opened P s) :
    Opened P r.1 ∧ ∀ e ∈ r.1.pending.entries, e ∈ s.pending.entries := by
  have hm : Move P (fun _ _ => True) k s (Effect.sent r.2) r.1 := h.move hs
  have hsealed : r.1.sealed = false := by
    obtain ⟨e, he, ⟨-, rfl⟩ | ⟨-, rfl⟩⟩ := h
    · exact hs.unsealed
    · exact hs.unsealed
  refine ⟨⟨hsealed, hm.buffered hs.buffered, hm.atLeastNext hs.atLeastNext⟩, ?_⟩
  obtain ⟨e, he, ⟨-, rfl⟩ | ⟨-, rfl⟩⟩ := h
  · exact fun x hx => SortedMap.mem_popFirst hx
  · exact fun x hx => hx

/-- A loop of such iterations is a trace, and leaves only entries it found. -/
theorem exec_trace (cfg : Config) (now : Instant) {L : WhileLoop PohSlot Output}
    (hL : ∀ s r, L.body s = some r → DrainIteration cfg k now s r) {s : PohSlot}
    (hs : Opened P s) :
    Trace (Move P Q k) s (Effect.sent (L.exec s).2) (L.exec s).1 ∧ Opened P (L.exec s).1 ∧
      ∀ e ∈ (L.exec s).1.pending.entries, e ∈ s.pending.entries := by
  exact L.exec_rule (fun t os => Trace (Move P Q k) s (Effect.sent os) t ∧ Opened P t ∧
      ∀ e ∈ t.pending.entries, e ∈ s.pending.entries)
    ⟨Trace.refl, hs, fun e he => he⟩ (by
      intro t os u es ⟨htr, ht, hsub⟩ hb
      have hit := hL t (u, es) hb
      obtain ⟨hu, hsub'⟩ := hit.opened ht
      refine ⟨?_, hu, fun e he => hsub e (hsub' e he)⟩
      rw [Effect.sent_append]
      exact htr.snoc (hit.move ht))

/-- The drain stops at a gap. -/
theorem beyondNext_drainConsecutivePending {s : PohSlot}
    (hs : Opened P ((drainConsecutivePending now).exec s).1) :
    BeyondNext ((drainConsecutivePending now).exec s).1 := by
  have hexit := (drainConsecutivePending now).exec_exits s
  simp only [drainConsecutivePending] at hexit ⊢
  split at hexit
  · next e he =>
    split_ifs at hexit with hne
    exact beyondNext_of_first_ne hs.atLeastNext he hne
  · next hn => exact beyondNext_of_pending_nil (SortedMap.firstKeyValue_eq_none.mp hn)

theorem beyondNext_sweepGaps {s : PohSlot} (hs : Opened P ((sweepGaps cfg k now).exec s).1) :
    BeyondNext ((sweepGaps cfg k now).exec s).1 := by
  have hexit := (sweepGaps cfg k now).exec_exits s
  simp only [sweepGaps] at hexit ⊢
  split at hexit
  · next e he =>
    split_ifs at hexit with heq
    exact beyondNext_of_first_ne hs.atLeastNext he heq
  · next hn => exact beyondNext_of_pending_nil (SortedMap.firstKeyValue_eq_none.mp hn)

/-- A flush up to the highest buffered index leaves nothing buffered. -/
theorem pending_nil_flushPending (cfg : Config) (k : ℕ) (now : Instant) {s : PohSlot}
    {maxIdx : U32}
    (hmax : ∀ e ∈ s.pending.entries, e.1 ≤ maxIdx) (hs : Opened P s) :
    ((flushPending cfg k now maxIdx).exec s).1.pending.entries = [] := by
  obtain ⟨-, ht, hsub⟩ := exec_trace (Q := fun _ _ => True) (k := k) cfg now
    (L := flushPending cfg k now maxIdx) (fun _ _ => flushPending_iteration) hs
  have hexit := (flushPending cfg k now maxIdx).exec_exits s
  generalize ((flushPending cfg k now maxIdx).exec s).1 = t at ht hsub hexit
  simp only [flushPending] at hexit
  split_ifs at hexit with hle
  · split at hexit
    · split_ifs at hexit
    · next hn => exact SortedMap.firstKeyValue_eq_none.mp hn
  · refine List.eq_nil_iff_forall_not_mem.mpr fun e he => hle ?_
    exact (ht.atLeastNext e he).trans (hmax e (hsub e he))

/-! ## The calls -/

/-- The state of a slot between two calls. -/
structure Resting (P : MergedEntry → Prop) (s : PohSlot) : Prop where
  buffered : Buffered P s
  beyondNext : BeyondNext s

theorem resting_new : Resting P {} :=
  ⟨buffered_of_pending_nil rfl, beyondNext_of_pending_nil rfl⟩

theorem Resting.opened {s : PohSlot} (hs : Resting P s) (hu : s.sealed = false) : Opened P s :=
  ⟨hu, hs.buffered, hs.beyondNext.atLeastNext⟩

theorem processSlot_sealed {s : PohSlot} (hu : s.sealed = true) (m : MergedEntry) :
    processSlot cfg s m now = (s, [.fetchAdd .lateArrivalsAfterSeal 1]) := by
  simp [processSlot, hu]

@[simp] theorem touch_nextExpectedIdx (s : PohSlot) :
    (touch s now).nextExpectedIdx = s.nextExpectedIdx := rfl
@[simp] theorem touch_pending (s : PohSlot) : (touch s now).pending = s.pending := rfl

theorem processSlot_emit {s : PohSlot} (hu : s.sealed = false) {m : MergedEntry}
    (h : m.observation.entryIndex = s.nextExpectedIdx) :
    processSlot cfg s m now =
      let r := emitNext (touch s now) m now false 0
      let t := (drainConsecutivePending now).exec r.1
      (t.1, r.2 ++ t.2) := by
  unfold processSlot
  simp only [hu, Bool.false_eq_true, if_false]
  exact if_pos h

theorem processSlot_refuse {s : PohSlot} (hu : s.sealed = false) {m : MergedEntry}
    (h : s.nextExpectedIdx < m.observation.entryIndex)
    (hfull : cfg.maxPendingPerSlot ≤ s.pending.size) :
    processSlot cfg s m now = (touch s now, [.fetchAdd .pendingDropsCapacity 1]) := by
  unfold processSlot
  simp only [hu, Bool.false_eq_true, if_false]
  rw [touch_nextExpectedIdx, if_neg h.ne', if_pos h]
  exact if_pos hfull

theorem processSlot_buffer {s : PohSlot} (hu : s.sealed = false) {m : MergedEntry}
    (h : s.nextExpectedIdx < m.observation.entryIndex)
    (hroom : s.pending.size < cfg.maxPendingPerSlot) :
    processSlot cfg s m now =
      let p := s.pending.insert m.observation.entryIndex ⟨m, now⟩
      ({ touch s now with pending := p }, [.fetchMax .pendingPeakSize p.size]) := by
  unfold processSlot
  simp only [hu, Bool.false_eq_true, if_false]
  rw [touch_nextExpectedIdx, if_neg h.ne', if_pos h]
  exact if_neg (not_le.mpr hroom)

theorem processSlot_late {s : PohSlot} (hu : s.sealed = false) {m : MergedEntry}
    (h : m.observation.entryIndex < s.nextExpectedIdx) :
    processSlot cfg s m now =
      ({ touch s now with tickIdx := tickAfter s m.observation },
        [.fetchAdd .duplicatesDropped 1]) := by
  unfold processSlot
  simp only [hu, Bool.false_eq_true, if_false]
  rw [touch_nextExpectedIdx, if_neg h.ne, if_neg h.le.not_gt]
  rfl

/-- The five ends of an arrival. -/
theorem processSlot_rule (cfg : Config) (now : Instant) {s : PohSlot} {m : MergedEntry}
    {C : PohSlot × List Output → Prop}
    (hsealed : s.sealed = true → C (s, [.fetchAdd .lateArrivalsAfterSeal 1]))
    (hlate : s.sealed = false → m.observation.entryIndex < s.nextExpectedIdx →
      C ({ touch s now with tickIdx := tickAfter s m.observation },
        [.fetchAdd .duplicatesDropped 1]))
    (hemit : s.sealed = false → m.observation.entryIndex = s.nextExpectedIdx →
      let r := emitNext (touch s now) m now false 0
      let t := (drainConsecutivePending now).exec r.1
      C (t.1, r.2 ++ t.2))
    (hbuffer : s.sealed = false → s.nextExpectedIdx < m.observation.entryIndex →
      s.pending.size < cfg.maxPendingPerSlot →
      let p := s.pending.insert m.observation.entryIndex ⟨m, now⟩
      C ({ touch s now with pending := p }, [.fetchMax .pendingPeakSize p.size]))
    (hrefuse : s.sealed = false → s.nextExpectedIdx < m.observation.entryIndex →
      cfg.maxPendingPerSlot ≤ s.pending.size →
      C (touch s now, [.fetchAdd .pendingDropsCapacity 1])) :
    C (processSlot cfg s m now) := by
  cases hu : s.sealed with
  | true =>
    rw [processSlot_sealed hu]
    exact hsealed hu
  | false =>
    rcases lt_trichotomy m.observation.entryIndex s.nextExpectedIdx with hlt | heq | hgt
    · rw [processSlot_late hu hlt]
      exact hlate hu hlt
    · rw [processSlot_emit hu heq]
      exact hemit hu heq
    · by_cases hroom : s.pending.size < cfg.maxPendingPerSlot
      · rw [processSlot_buffer hu hgt hroom]
        exact hbuffer hu hgt hroom
      · rw [processSlot_refuse hu hgt (not_lt.mp hroom)]
        exact hrefuse hu hgt (not_lt.mp hroom)

/-- An arrival is a trace of moves between resting states. -/
theorem processSlot_trace (cfg : Config) (now : Instant) {s : PohSlot} {m : MergedEntry} (hs : Resting P s) (hP : P m)
    (hQ : s.sealed = false → Q s m) :
    Trace (Move P Q k) s (Effect.sent (processSlot cfg s m now).2) (processSlot cfg s m now).1 ∧
      Resting P (processSlot cfg s m now).1 ∧ (processSlot cfg s m now).1.sealed = s.sealed := by
  by_cases hu : s.sealed = true
  · rw [processSlot_sealed hu]
    exact ⟨Trace.refl, hs, rfl⟩
  · have hu : s.sealed = false := by simpa using hu
    have hQ := hQ hu
    unfold processSlot
    simp only [hu, Bool.false_eq_true, if_false]
    split_ifs with heq hgt hfull
    · -- in order: emit, then drain what the entry was holding back
      have hm : Move P Q k s [entryEventOf s m now false 0] (emitted s s.pending m now) :=
        Move.emit s s.pending m now false 0 hu hP heq (fun e he => ⟨he, hs.beyondNext e he⟩)
          (Or.inl hQ)
      have ho : Opened P (emitted s s.pending m now) :=
        ⟨hu, hm.buffered hs.buffered, hm.atLeastNext hs.beyondNext.atLeastNext⟩
      obtain ⟨htr, ht, -⟩ := exec_trace (Q := Q) (k := k) cfg now
        (L := drainConsecutivePending now) (fun _ _ => drainConsecutivePending_iteration) ho
      refine ⟨?_, ⟨ht.buffered, beyondNext_drainConsecutivePending ht⟩, ht.unsealed⟩
      rw [Effect.sent_append]
      exact (Trace.single hm).trans htr
    · exact ⟨Trace.single (Move.refuse s _ hu), ⟨hs.buffered, hs.beyondNext⟩, hu⟩
    · have hm := Move.buffer (k := k) s m now (touch s now).lastEmitAt hu hP hQ hgt
      refine ⟨Trace.single hm, ⟨hm.buffered hs.buffered, ?_⟩, hu⟩
      intro e he
      rcases (SortedMap.mem_insert _).mp he with rfl | ⟨he, -⟩
      · exact hgt
      · exact hs.beyondNext e he
    · have hlt : m.observation.entryIndex < s.nextExpectedIdx :=
        lt_of_le_of_ne (not_lt.mp hgt) heq
      exact ⟨Trace.single (Move.late s m _ hu hQ hlt), ⟨hs.buffered, hs.beyondNext⟩, hu⟩

theorem ifUnsealed_sealed {f : PohSlot → PohSlot × List Output} {s : PohSlot}
    (hu : s.sealed = true) : ifUnsealed f s = (s, []) := by
  simp [ifUnsealed, hu]

theorem ifUnsealed_unsealed {f : PohSlot → PohSlot × List Output} {s : PohSlot}
    (hu : s.sealed = false) : ifUnsealed f s = f s := by
  simp [ifUnsealed, hu]

/-- What holds of a sealed slot left alone, and of the visit of an open one. -/
theorem ifUnsealed_rule {f : PohSlot → PohSlot × List Output} {s : PohSlot}
    {C : PohSlot × List Output → Prop} (hsealed : s.sealed = true → C (s, []))
    (hopen : s.sealed = false → C (f s)) : C (ifUnsealed f s) := by
  cases hu : s.sealed with
  | true =>
    rw [ifUnsealed_sealed hu]
    exact hsealed hu
  | false =>
    rw [ifUnsealed_unsealed hu]
    exact hopen hu

/-- Phase A on one slot. -/
theorem sweepGaps_trace (cfg : Config) (now : Instant) {s : PohSlot} (hs : Resting P s) :
    let r := ifUnsealed (fun s => (sweepGaps cfg k now).exec s) s
    Trace (Move P Q k) s (Effect.sent r.2) r.1 ∧ Resting P r.1 ∧ r.1.sealed = s.sealed := by
  refine ifUnsealed_rule (C := fun r => Trace (Move P Q k) s (Effect.sent r.2) r.1 ∧
    Resting P r.1 ∧ r.1.sealed = s.sealed) (fun _ => ⟨Trace.refl, hs, rfl⟩) fun hu => ?_
  obtain ⟨htr, ht, -⟩ := exec_trace (Q := Q) (k := k) cfg now
    (L := sweepGaps cfg k now) (fun _ _ => sweepGaps_iteration) (hs.opened hu)
  exact ⟨htr, ⟨ht.buffered, beyondNext_sweepGaps ht⟩, by rw [ht.unsealed, hu]⟩

theorem sent_sealSlot (s : PohSlot) :
    Effect.sent (sealSlot cfg s k now).2 =
      (match s.pending.lastKeyValue with
        | some e => Effect.sent ((flushPending cfg k now e.1).exec s).2
        | none => []) ++ [terminalEvent (sealSlot cfg s k now).1 k] := by
  unfold sealSlot
  cases s.pending.lastKeyValue with
  | none => cases h : s.hasMissing <;> simp [h]
  | some e => cases h : ((flushPending cfg k now e.1).exec s).1.hasMissing <;> simp [h]

/-- Sealing flushes the buffer and then closes the slot. -/
theorem sealSlot_trace (cfg : Config) (now : Instant) {s : PohSlot} (hs : Resting P s) (hu : s.sealed = false) :
    Trace (Move P Q k) s (Effect.sent (sealSlot cfg s k now).2) (sealSlot cfg s k now).1 ∧
      (sealSlot cfg s k now).1.sealed = true ∧
      (sealSlot cfg s k now).1.pending.entries = [] := by
  rw [sent_sealSlot]
  unfold sealSlot
  cases hlast : s.pending.lastKeyValue with
  | none =>
    have hnil := SortedMap.lastKeyValue_eq_none.mp hlast
    exact ⟨Trace.single (Move.close s hu hnil), rfl, hnil⟩
  | some e =>
    have ho := hs.opened hu
    obtain ⟨htr, ht, -⟩ := exec_trace (Q := Q) (k := k) cfg now
      (L := flushPending cfg k now e.1) (fun _ _ => flushPending_iteration) ho
    have hnil := pending_nil_flushPending cfg k now
      (SortedMap.le_lastKeyValue hlast) ho
    exact ⟨htr.snoc (Move.close _ ht.unsealed hnil), rfl, hnil⟩

/-- Phase B, or the final flush, on one slot. -/
theorem sealSlot_ifUnsealed_trace (cfg : Config) (now : Instant) {s : PohSlot} (hs : Resting P s) :
    let r := ifUnsealed (fun s => sealSlot cfg s k now) s
    Trace (Move P Q k) s (Effect.sent r.2) r.1 ∧ Resting P r.1 ∧ r.1.sealed = true := by
  refine ifUnsealed_rule (C := fun r => Trace (Move P Q k) s (Effect.sent r.2) r.1 ∧
    Resting P r.1 ∧ r.1.sealed = true) (fun hu => ⟨Trace.refl, hs, hu⟩) fun hu => ?_
  obtain ⟨htr, hsealed, hnil⟩ := sealSlot_trace (Q := Q) (k := k) cfg now hs hu
  exact ⟨htr, ⟨buffered_of_pending_nil hnil, beyondNext_of_pending_nil hnil⟩, hsealed⟩

end

end SolanaBench.TickTrigger.PohSupervisor
