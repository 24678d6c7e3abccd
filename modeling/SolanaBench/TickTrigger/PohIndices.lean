import SolanaBench.TickTrigger.PohCounters
import SolanaBench.TickTrigger.PohSequence

/-! Index arithmetic. Of the sums a slot keeps, `next_expected_idx` is the only one that does not
saturate; here is when none of its additions overflows. -/
namespace SolanaBench.TickTrigger.PohSupervisor

/-! ## What a call has to keep -/

/-- One past the highest index that `l` emits or skips, `0` if it has none. -/
def onePast (l : List OrderedEvent) : ℕ :=
  (l.filterMap OrderedEvent.index?).foldr (fun i n => max (i + 1) n) 0

/-- The counters of a slot state stay within their types. -/
structure InRange (s : PohSlot) : Prop where
  missingCount : s.missingCount < 2 ^ 32
  totalEmitted : s.totalEmitted < 2 ^ 32
  tickIdx : s.tickIdx < 2 ^ 8
  cumulativeHashes : s.cumulativeHashes < 2 ^ 64
  hashesSinceLastTick : s.hashesSinceLastTick < 2 ^ 64

/-- A slot that has sent `l` since it was created counts without wrapping or saturating. -/
structure Tallies (s : PohSlot) (l : List OrderedEvent) : Prop where
  nextExpectedIdx : s.nextExpectedIdx.val = onePast l
  missingCount : s.missingCount = (missingsIn l).length
  totalEmitted : s.totalEmitted = (entriesIn l).length

/-- A loop entered in state `s`, after the slot has sent `l`. Every iteration makes one
addition to the expected index. -/
structure LoopLaw (L : WhileLoop PohSlot Output) (s : PohSlot) (l : List OrderedEvent) : Prop where
  stops : L.Visits s (L.exec s).1 ∧ L.body (L.exec s).1 = none
  increments : ∀ t u es, L.Visits s t → L.body t = some (u, es) →
    u.nextExpectedIdx.val = t.nextExpectedIdx.val + 1
  inRange : ∀ t, L.Visits s t → InRange t
  tallies : Tallies (L.exec s).1 (l ++ Effect.sent (L.exec s).2)

/-- The loops of slot `k` in state `s` while an input is handled, after the slot has sent `l`.
A sweep drains the slot and, if it `seals` the slot, flushes it. -/
def CallLaw (cfg : Config) (k : ℕ) (seals : Bool) (s : PohSlot) (l : List OrderedEvent) :
    Input → Prop
  | .arrival m now => s.sealed = false → m.observation.entryIndex = s.nextExpectedIdx →
      let r := emitNext (touch s now) m now false 0
      r.1.nextExpectedIdx.val = s.nextExpectedIdx.val + 1 ∧
        LoopLaw (drainConsecutivePending now) r.1 (l ++ Effect.sent r.2)
  | .sweep now => s.sealed = false →
      let r := (sweepGaps cfg k now).exec s
      LoopLaw (sweepGaps cfg k now) s l ∧
        (seals = true → ∀ e, r.1.pending.lastKeyValue = some e →
          LoopLaw (flushPending cfg k now e.1) r.1 (l ++ Effect.sent r.2))

/-- The input touches the state of slot `k`. -/
def Concerns (k : ℕ) : Input → Prop
  | .arrival m _ => m.observation.slot = k
  | .sweep _ => True

/-! ## What a slot has sent -/

/-- `l`, if slot `k` is there; a slot that is created has sent nothing. -/
def sinceCreated (k : ℕ) (st : State) (l : List OrderedEvent) : List OrderedEvent :=
  if (st.slots.get? k).isSome then l else []

/-- The worker with a record of what each slot has sent since its state was created. -/
def tracer (cfg : Config) : EventMachine (State × (ℕ → List OrderedEvent)) Input Output :=
  (machine cfg).withHistory fun st _ os log k =>
    sinceCreated k st (log k) ++ eventsOf k (Effect.sent os)

def logOf (cfg : Config) (is : List Input) (k : ℕ) : List OrderedEvent :=
  let h := ((tracer cfg).run ({}, fun _ => []) is).1
  sinceCreated k h.1 (h.2 k)

def slotAt (st : State) (k : ℕ) : PohSlot := (st.slots.get? k).getD {}

/-- From start to shutdown every loop stops, no addition overflows, and the loops leave the
expected index one past the highest index sent. The shutdown sweeps and seals every slot. -/
structure IndexLaw (cfg : Config) (is : List Input) (now : Instant) : Prop where
  calls : EverySplit (fun pre i => ∀ k, Concerns k i →
    let st := ((machine cfg).run {} pre).1
    CallLaw cfg k (lagsBehind cfg st.maxSlot k) (slotAt st k) (logOf cfg pre k) i) is
  flush : ∀ k, CallLaw cfg k true (slotAt ((machine cfg).run {} is).1 k) (logOf cfg is k)
    (.sweep now)
  counters : ∀ c, Effect.total c (((machine cfg).run {} is).2 ++
    (shutdown cfg ((machine cfg).run {} is).1 now).2) < 2 ^ 64

/-- An entry that is taken in has an index below `u32::MAX`. -/
def SparesTop (cfg : Config) (st : State) : Input → Prop
  | .arrival m _ => takesIn cfg (slotAt st m.observation.slot) m = true → Indexable m
  | .sweep _ => True

instance (cfg : Config) (st : State) (i : Input) : Decidable (SparesTop cfg st i) :=
  match i with
  | .arrival _ _ => inferInstanceAs (Decidable (_ → _))
  | .sweep _ => .isTrue trivial

/-! ## One slot -/

variable {P : MergedEntry → Prop} {Q : PohSlot → MergedEntry → Prop} {cfg : Config}
  {now : Instant} {k : ℕ} {s t : PohSlot} {l es : List OrderedEvent}

theorem foldr_max_range (n a : ℕ) :
    (List.range n).foldr (fun i m => max (i + 1) m) a = max n a := by
  induction n generalizing a with
  | zero => simp
  | succ n ih =>
    rw [List.range_succ, List.foldr_append, List.foldr_cons, List.foldr_nil, ih]
    omega

theorem Numbered.onePast_eq {n : ℕ} (h : Numbered n l) : onePast l = n := by
  have hidx : l.filterMap OrderedEvent.index? = List.range n := by
    have hmap := congrArg (List.filterMap id) h
    simpa [List.filterMap_map] using hmap
  rw [onePast, hidx, foldr_max_range, Nat.max_zero]

theorem Accounts.tallies (h : Accounts s l) : Tallies s l :=
  ⟨h.numbered.onePast_eq.symm, h.missingCount, h.totalEmitted⟩

theorem inRange_new : InRange {} := by
  constructor <;> decide

theorem tickAfter_lt (h : InRange s) (obs : EntryObservation) : tickAfter s obs < 2 ^ 8 := by
  have hlt := h.tickIdx
  unfold tickAfter satAddU8
  split_ifs <;> omega

theorem satAddU32_lt (a b : ℕ) : satAddU32 a b < 2 ^ 32 := by
  unfold satAddU32 U32.MAX
  omega

theorem satAddU64_lt (a b : ℕ) : satAddU64 a b < 2 ^ 64 := by
  unfold satAddU64 U64.MAX
  omega

/-- The saturating additions keep the counters of a slot within their types. -/
theorem Move.inRange (h : Move P Q k s es t) (hs : InRange s) : InRange t := by
  cases h with
  | emit p m now _ _ hu hm hidx hp hq =>
    refine ⟨hs.missingCount, satAddU32_lt _ _, tickAfter_lt hs _, satAddU64_lt _ _, ?_⟩
    have hlt := satAddU64_lt s.hashesSinceLastTick m.observation.numHashes
    simp only [emitted, trackEntry]
    split_ifs
    · exact Nat.two_pow_pos 64
    · exact hlt
  | skip e _ hu he hgap => exact { hs with missingCount := satAddU32_lt _ _ }
  | buffer m now last hu hm hq hidx => exact { hs with }
  | refuse last hu => exact { hs with }
  | late m last hu hq hidx => exact { hs with tickIdx := tickAfter_lt hs _ }
  | close hu hp => exact { hs with }

theorem trace_inRange (h : Trace (Move P Q k) s es t) (hs : InRange s) : InRange t :=
  h.rule (fun t _ => InRange t) hs fun _ _ _ _ hs hm => hm.inRange hs

/-! ## The loops of a slot without the top index -/

/-- Below the top index an iteration adds one to the expected index. -/
theorem DrainIteration.increments (hP : ∀ m, P m → Indexable m) {r : PohSlot × List Output}
    (h : DrainIteration cfg k now s r) (hs : Opened P s) :
    r.1.nextExpectedIdx.val = s.nextExpectedIdx.val + 1 := by
  obtain ⟨e, he, ⟨heq, rfl⟩ | ⟨hne, rfl⟩⟩ := h
  · have hmem := SortedMap.firstKeyValue_mem he
    have hidx := hP _ (hs.buffered e hmem).1
    unfold Indexable at hidx
    rw [(hs.buffered e hmem).2, heq] at hidx
    exact val_add_one_of_lt hidx
  · exact val_add_one_of_mem (beyondNext_of_first_ne hs.atLeastNext he hne)
      (SortedMap.firstKeyValue_mem he)

theorem loopLaw (cfg : Config) (now : Instant) {L : WhileLoop PohSlot Output}
    (hL : ∀ s r, L.body s = some r → DrainIteration cfg k now s r)
    (hs : Opened (Own Indexable k) s) (ha : Accounts s l) (hr : InRange s) : LoopLaw L s l where
  stops := ⟨L.visits_exec s, L.exec_exits s⟩
  increments := by
    intro t u es ht hb
    exact (hL t (u, es) hb).increments (fun _ hm => hm.2) (opened_of_visits cfg k now hL hs ht)
  inRange := by
    intro t ht
    refine (L.visits_rule (fun t => Opened (Own Indexable k) t ∧ InRange t) ⟨hs, hr⟩ ?_ ht).2
    intro t u es ⟨hopen, hrange⟩ hb
    have hit := hL t (u, es) hb
    have hmove : Move (Own Indexable k) (fun _ _ => True) k t (Effect.sent es) u := hit.move hopen
    exact ⟨(hit.opened hopen).1, hmove.inRange hrange⟩
  tallies := by
    obtain ⟨htr, ht, -⟩ := exec_trace (Q := fun _ _ => True) (k := k) cfg now hL hs
    have ho := trace_ordered_append (l := l) (fun _ hm => hm.2) htr hs.buffered
      ⟨fun _ => ha, fun hu => by simp [hs.unsealed] at hu⟩
    exact (ho.1 ht.unsealed).tallies

/-- A slot between two calls whose indices have all stayed below the top. -/
structure Untopped (k : ℕ) (s : PohSlot) (l : List OrderedEvent) : Prop where
  resting : Resting (Own Indexable k) s
  ordered : Ordered s l
  inRange : InRange s

theorem untopped_new (k : ℕ) : Untopped k {} [] :=
  ⟨resting_new, ⟨fun _ => accounts_new, fun h => by simp at h⟩, inRange_new⟩

theorem Untopped.trace (h : Untopped k s l) (ht : Trace (Move (Own Indexable k) Q k) s es t)
    (hrest : Resting (Own Indexable k) t) : Untopped k t (l ++ es) :=
  ⟨hrest, trace_ordered_append (fun _ hm => hm.2) ht h.resting.buffered h.ordered,
    trace_inRange ht h.inRange⟩

theorem Untopped.callLaw_arrival (h : Untopped k s l) (cfg : Config) (seals : Bool)
    {m : MergedEntry} (now : Instant) (hslot : m.observation.slot = k)
    (hm : takesIn cfg s m = true → Indexable m) :
    CallLaw cfg k seals s l (.arrival m now) := by
  intro hu heq r
  have hidx : Indexable m := hm (by simp [takesIn, hu, heq])
  have hmove : Move (Own Indexable k) (fun _ _ => True) k s [entryEventOf s m now false 0] r.1 :=
    Move.emit s s.pending m now false 0 hu ⟨hslot, hidx⟩ heq
      (fun e he => ⟨he, h.resting.beyondNext e he⟩) (Or.inl trivial)
  have hopen : Opened (Own Indexable k) r.1 := ⟨hu, hmove.buffered h.resting.buffered,
    hmove.atLeastNext h.resting.beyondNext.atLeastNext⟩
  have hlt : s.nextExpectedIdx.val < 2 ^ 32 - 1 := heq ▸ hidx
  exact ⟨val_add_one_of_lt hlt, loopLaw cfg now
    (fun _ _ => drainConsecutivePending_iteration) hopen
    ((h.ordered.1 hu).emitted hidx heq s.pending now false 0) (hmove.inRange h.inRange)⟩

theorem Untopped.callLaw_sweep (h : Untopped k s l) (cfg : Config) (seals : Bool)
    (now : Instant) : CallLaw cfg k seals s l (.sweep now) := by
  intro hu r
  have hopen := h.resting.opened hu
  obtain ⟨htr, hopen', -⟩ := exec_trace (Q := fun _ _ => True) (k := k) cfg now
    (L := sweepGaps cfg k now) (fun _ _ => sweepGaps_iteration) hopen
  have ho := trace_ordered_append (fun _ hm => hm.2) htr h.resting.buffered h.ordered
  refine ⟨loopLaw cfg now (fun _ _ => sweepGaps_iteration) hopen (h.ordered.1 hu) h.inRange, ?_⟩
  intro _ e _
  exact loopLaw cfg now (fun _ _ => flushPending_iteration) hopen' (ho.1 hopen'.unsealed)
    (trace_inRange htr h.inRange)

/-- An arrival that is not taken in changes nothing but the clock and the ticks. -/
theorem processSlot_of_not_takesIn {m : MergedEntry} (h : takesIn cfg s m = false)
    (now : Instant) :
    ∃ last tick, (tick = s.tickIdx ∨ tick = tickAfter s m.observation) ∧
      (processSlot cfg s m now).1 = { s with lastEmitAt := last, tickIdx := tick } ∧
      Effect.sent (processSlot cfg s m now).2 = [] := by
  refine processSlot_rule cfg now (C := fun r => ∃ last tick,
    (tick = s.tickIdx ∨ tick = tickAfter s m.observation) ∧
      r.1 = { s with lastEmitAt := last, tickIdx := tick } ∧ Effect.sent r.2 = []) ?_ ?_ ?_ ?_ ?_
  · exact fun _ => ⟨_, _, Or.inl rfl, rfl, rfl⟩
  · exact fun _ _ => ⟨_, _, Or.inr rfl, rfl, rfl⟩
  · exact fun hu heq => by simp [takesIn, hu, heq] at h
  · exact fun hu hlt hroom => by simp [takesIn, hu, hlt, hroom] at h
  · exact fun _ _ _ => ⟨_, _, Or.inl rfl, rfl, rfl⟩

theorem Untopped.processSlot (h : Untopped k s l) {m : MergedEntry} (now : Instant)
    (hslot : m.observation.slot = k) (hm : takesIn cfg s m = true → Indexable m) :
    let r := processSlot cfg s m now
    Untopped k r.1 (l ++ Effect.sent r.2) ∧ ∀ e ∈ Effect.sent r.2, e.slot = k := by
  intro r
  cases htake : takesIn cfg s m with
  | true =>
    obtain ⟨htr, hrest, -⟩ := processSlot_trace (Q := fun _ _ => True) (k := k) cfg now h.resting
      ⟨hslot, hm htake⟩ fun _ => trivial
    exact ⟨h.trace htr hrest, trace_slot htr⟩
  | false =>
    obtain ⟨last, tick, htick, hst, hsent⟩ := processSlot_of_not_takesIn htake now
    simp only [r]
    rw [hst, hsent, List.append_nil]
    refine ⟨⟨⟨h.resting.buffered, h.resting.beyondNext⟩, ?_, ?_⟩, by simp⟩
    · refine ⟨fun hu => { h.ordered.1 hu with }, fun hu => ?_⟩
      obtain ⟨body, term, hl, ha, hterm⟩ := h.ordered.2 hu
      exact ⟨body, term, hl, { ha with }, hterm⟩
    · refine { h.inRange with tickIdx := ?_ }
      rcases htick with rfl | rfl
      · exact h.inRange.tickIdx
      · exact tickAfter_lt h.inRange _

/-! ## The worker without the top index -/

theorem slotAt_of_some {st : State} (h : st.slots.get? k = some s) : slotAt st k = s := by
  simp [slotAt, h]

theorem slotAt_of_none {st : State} (h : st.slots.get? k = none) : slotAt st k = {} := by
  simp [slotAt, h]

theorem sinceCreated_of_some {st : State} (h : st.slots.get? k = some s) (l : List OrderedEvent) :
    sinceCreated k st l = l := by
  simp [sinceCreated, h]

theorem sinceCreated_of_none {st : State} (h : st.slots.get? k = none) (l : List OrderedEvent) :
    sinceCreated k st l = [] := by
  simp [sinceCreated, h]

theorem get?_arrival (cfg : Config) (st : State) (m : MergedEntry) (now : Instant) (k : ℕ) :
    ((machine cfg).step st (.arrival m now)).1.slots.get? k =
      if k = m.observation.slot then some (processSlot cfg (slotAt st k) m now).1
      else st.slots.get? k := by
  rw [slots_arrival, SortedMap.get?_insert]
  split_ifs with hk
  · rw [hk, slotAt]
  · rfl

theorem slotAt_arrival (cfg : Config) (st : State) (m : MergedEntry) (now : Instant) (k : ℕ) :
    slotAt ((machine cfg).step st (.arrival m now)).1 k =
      if k = m.observation.slot then (processSlot cfg (slotAt st k) m now).1 else slotAt st k := by
  rw [slotAt, get?_arrival]
  split_ifs <;> rfl

/-- No slot has met the top index since it was created. -/
def AllUntopped (h : State × (ℕ → List OrderedEvent)) : Prop :=
  ∀ k, Untopped k (slotAt h.1 k) (sinceCreated k h.1 (h.2 k))

section Worker

variable {h : State × (ℕ → List OrderedEvent)}

theorem allUntopped_init : AllUntopped ({}, fun _ => []) := fun k => untopped_new k

theorem AllUntopped.allResting (ha : AllUntopped h) : AllResting Indexable h.1.slots := by
  intro k s hs
  have hk := (ha k).resting
  rw [slotAt_of_some hs] at hk
  exact hk

theorem AllUntopped.arrival (ha : AllUntopped h) {m : MergedEntry} (now : Instant)
    (hm : SparesTop cfg h.1 (.arrival m now)) :
    AllUntopped ((tracer cfg).step h (.arrival m now)).1 := by
  intro k
  obtain ⟨hnew, hown⟩ := (ha m.observation.slot).processSlot now rfl hm
  have hget := get?_arrival cfg h.1 m now k
  have hslot := slotAt_arrival cfg h.1 m now k
  have hlog : ((tracer cfg).step h (.arrival m now)).1.2 k = sinceCreated k h.1 (h.2 k) ++
      eventsOf k (Effect.sent (processSlot cfg (slotAt h.1 m.observation.slot) m now).2) := rfl
  have hst : ((tracer cfg).step h (.arrival m now)).1.1 =
      ((machine cfg).step h.1 (.arrival m now)).1 := rfl
  rw [hst, hslot, hlog]
  by_cases hk : k = m.observation.slot
  · rw [if_pos hk] at hget ⊢
    rw [sinceCreated_of_some hget, hk, eventsOf_eq_self hown]
    exact hnew
  · rw [if_neg hk] at hget ⊢
    rw [eventsOf_eq_nil (Ne.symm hk) hown, List.append_nil]
    have hold := ha k
    unfold sinceCreated at hold ⊢
    rw [hget]
    split_ifs at hold ⊢ <;> exact hold

theorem AllUntopped.sweep (ha : AllUntopped h) (now : Instant) :
    AllUntopped ((tracer cfg).step h (.sweep now)).1 := by
  intro k
  have hget : ((tracer cfg).step h (.sweep now)).1.1.slots.get? k =
      ((h.1.slots.get? k).map fun s => (sweepSlot cfg k h.1.maxSlot now s).1).filter
        (keeps cfg k h.1.maxSlot) := get?_sweep cfg now k
  have hlog : ((tracer cfg).step h (.sweep now)).1.2 k = sinceCreated k h.1 (h.2 k) ++
      ((h.1.slots.get? k).map fun s =>
        Effect.sent (sweepSlot cfg k h.1.maxSlot now s).2).getD [] := by
    rw [← eventsOf_sweep cfg now ha.allResting]
    rfl
  cases hnext : ((tracer cfg).step h (.sweep now)).1.1.slots.get? k with
  | none =>
    rw [slotAt_of_none hnext, sinceCreated_of_none hnext]
    exact untopped_new k
  | some t =>
    rw [hnext] at hget
    obtain ⟨s, hs, rfl⟩ := Option.map_eq_some_iff.mp (Option.filter_eq_some_iff.mp hget.symm).1
    have hk := ha k
    rw [slotAt_of_some hs] at hk
    obtain ⟨htr, hrest, -⟩ := sweepSlot_trace (Q := fun _ _ => True) cfg h.1.maxSlot now hk.resting
    rw [slotAt_of_some hnext, sinceCreated_of_some hnext, hlog, hs]
    exact hk.trace htr hrest

end Worker

variable {is : List Input}

/-- The run lemma: a run that spares the top index keeps every slot below it. -/
theorem untopped_run (h : (machine cfg).Along (SparesTop cfg) {} is) (k : ℕ) :
    Untopped k (slotAt ((machine cfg).run {} is).1 k) (logOf cfg is k) := by
  have hproj := (machine cfg).run_withHistory (fun st _ os log k =>
    sinceCreated k st (log k) ++ eventsOf k (Effect.sent os)) ({}, fun _ => []) is
  have halong := ((machine cfg).along_withHistory (fun st _ os log k =>
    sinceCreated k st (log k) ++ eventsOf k (Effect.sent os)) (SparesTop cfg)
      ({}, fun _ => []) is).mpr h
  have hall := EventMachine.along_rule (M := tracer cfg) (fun h i => SparesTop cfg h.1 i)
    (fun _ h _ => AllUntopped h) allUntopped_init (by
      intro _ h _ i hi ha
      cases i with
      | arrival m now => exact ha.arrival now hi
      | sweep now => exact ha.sweep now) halong
  rw [← hproj.1]
  exact hall k

theorem indexLaw_of_sparesTop (h : (machine cfg).Along (SparesTop cfg) {} is)
    (hlen : arrivals is < 2 ^ 32) (now : Instant) : IndexLaw cfg is now where
  calls := by
    intro pre i post his k hk st
    have hpre : (machine cfg).Along (SparesTop cfg) {} pre :=
      EverySplit.of_append (m := i :: post) (his ▸ h)
    have hi := h pre i post his
    cases i with
    | arrival m t =>
      have hslot : m.observation.slot = k := hk
      subst hslot
      exact (untopped_run hpre _).callLaw_arrival cfg _ t rfl hi
    | sweep t => exact (untopped_run hpre k).callLaw_sweep cfg _ t
  flush k := (untopped_run h k).callLaw_sweep cfg true now
  counters c := by
    have hle := total_runLoop_le cfg is now c
    omega

/-! ## The top index in the buffer -/

/-- The open slot has an entry of index `u32::MAX` in its buffer. -/
def HoldsTop (s : PohSlot) : Prop :=
  s.sealed = false ∧ ∃ e ∈ s.pending.entries, ¬e.1.val < 2 ^ 32 - 1

/-- Where no addition overflows, an iteration leaves the top entry where it is. -/
theorem DrainIteration.holdsTop {r : PohSlot × List Output} (h : DrainIteration cfg k now s r)
    (hinc : r.1.nextExpectedIdx.val = s.nextExpectedIdx.val + 1) (hs : HoldsTop s) :
    HoldsTop r.1 := by
  obtain ⟨hu, f, hf, htop⟩ := hs
  have hlt := r.1.nextExpectedIdx.isLt
  obtain ⟨e, he, ⟨heq, rfl⟩ | ⟨-, rfl⟩⟩ := h
  · refine ⟨hu, f, ?_, htop⟩
    rw [SortedMap.entries_of_firstKeyValue he] at hf
    rcases List.mem_cons.mp hf with rfl | hf
    · rw [heq] at htop
      omega
    · exact hf
  · exact ⟨hu, f, hf, htop⟩

theorem LoopLaw.holdsTop {L : WhileLoop PohSlot Output} (h : LoopLaw L s l) (cfg : Config)
    (k : ℕ) (now : Instant) (hL : ∀ s r, L.body s = some r → DrainIteration cfg k now s r)
    (hs : HoldsTop s) :
    HoldsTop (L.exec s).1 := by
  have hrule := L.exec_rule (fun t _ => L.Visits s t ∧ HoldsTop t) (s := s)
    ⟨Relation.ReflTransGen.refl, hs⟩ (by
      intro t os u es ⟨ht, htop⟩ hb
      have hit := hL t (u, es) hb
      exact ⟨ht.tail ⟨es, hb⟩, hit.holdsTop (h.increments t u es ht hb) htop⟩)
  exact hrule.2

/-- A slot with the top entry cannot be flushed without an overflow. -/
theorem not_callLaw_of_holdsTop (hr : Resting P s) (hs : HoldsTop s) (cfg : Config) (k : ℕ)
    (l : List OrderedEvent) (now : Instant) : ¬CallLaw cfg k true s l (.sweep now) := by
  intro hlaw
  obtain ⟨hgaps, hflush⟩ := hlaw hs.1
  have hopen := (exec_trace (Q := fun _ _ => True) (k := k) cfg now (L := sweepGaps cfg k now)
    (fun _ _ => sweepGaps_iteration) (hr.opened hs.1)).2.1
  have htop := hgaps.holdsTop cfg k now (fun _ _ => sweepGaps_iteration) hs
  cases hlast : ((sweepGaps cfg k now).exec s).1.pending.lastKeyValue with
  | none =>
    obtain ⟨-, e, he, -⟩ := htop
    simp [SortedMap.lastKeyValue_eq_none.mp hlast] at he
  | some e =>
    have hnil := pending_nil_flushPending cfg k now (SortedMap.le_lastKeyValue hlast) hopen
    obtain ⟨-, f, hf, -⟩ := (hflush rfl e hlast).holdsTop cfg k now
      (fun _ _ => flushPending_iteration) htop
    simp [hnil] at hf

theorem HoldsTop.processSlot (hs : HoldsTop s) {seals : Bool} {m : MergedEntry}
    (hlaw : CallLaw cfg k seals s l (.arrival m now)) :
    HoldsTop (processSlot cfg s m now).1 := by
  obtain ⟨hu, f, hf, htop⟩ := hs
  refine processSlot_rule cfg now (C := fun r => HoldsTop r.1) ?_ ?_ ?_ ?_ ?_
  · intro hsealed
    simp [hu] at hsealed
  · exact fun _ _ => ⟨hu, f, hf, htop⟩
  · intro _ heq
    have hemit : HoldsTop (emitNext (touch s now) m now false 0).1 := ⟨hu, f, hf, htop⟩
    exact (hlaw hu heq).2.holdsTop cfg k now
      (fun _ _ => drainConsecutivePending_iteration) hemit
  · intro _ _ _
    -- a second top entry takes the place of the first
    by_cases hidx : f.1 = m.observation.entryIndex
    · exact ⟨hu, _, (SortedMap.mem_insert _).mpr (Or.inl rfl), hidx ▸ htop⟩
    · exact ⟨hu, f, (SortedMap.mem_insert _).mpr (Or.inr ⟨hf, hidx⟩), htop⟩
  · exact fun _ _ _ => ⟨hu, f, hf, htop⟩

theorem HoldsTop.sweepSlot (hs : HoldsTop s) (hr : Resting P s) {maxSlot : ℕ}
    (hlaw : CallLaw cfg k (lagsBehind cfg maxSlot k) s l (.sweep now)) :
    HoldsTop (sweepSlot cfg k maxSlot now s).1 := by
  cases hlag : lagsBehind cfg maxSlot k with
  | true =>
    rw [hlag] at hlaw
    exact absurd hlaw (not_callLaw_of_holdsTop hr hs cfg k l now)
  | false =>
    have hst : PohSupervisor.sweepSlot cfg k maxSlot now s = (sweepGaps cfg k now).exec s := by
      simp only [PohSupervisor.sweepSlot, hlag, Bool.false_eq_true, if_false]
      exact ifUnsealed_unsealed hs.1
    rw [hst]
    exact (hlaw hs.1).1.holdsTop cfg k now (fun _ _ => sweepGaps_iteration) hs

theorem slotAt_sweep_of_open {st : State} (hs : st.slots.get? k = some s)
    (hu : (sweepSlot cfg k st.maxSlot now s).1.sealed = false) :
    slotAt ((machine cfg).step st (.sweep now)).1 k = (sweepSlot cfg k st.maxSlot now s).1 := by
  have hget : ((machine cfg).step st (.sweep now)).1.slots.get? k =
      ((st.slots.get? k).map fun s => (sweepSlot cfg k st.maxSlot now s).1).filter
        (keeps cfg k st.maxSlot) := get?_sweep cfg now k
  have hkeeps : keeps cfg k st.maxSlot (sweepSlot cfg k st.maxSlot now s).1 = true := by
    simp [keeps, hu]
  rw [hs, Option.map_some, Option.filter_some_pos hkeeps] at hget
  exact slotAt_of_some hget

/-- The top entry stays buffered, in its open slot, as long as no addition overflows. -/
theorem holdsTop_step {st : State} (hr : AllResting P st.slots) (hs : HoldsTop (slotAt st k))
    {i : Input}
    (hlaw : Concerns k i → CallLaw cfg k (lagsBehind cfg st.maxSlot k) (slotAt st k) l i) :
    HoldsTop (slotAt ((machine cfg).step st i).1 k) := by
  cases i with
  | arrival m now =>
    rw [slotAt_arrival]
    split_ifs with hk
    · exact hs.processSlot (hlaw hk.symm)
    · exact hs
  | sweep now =>
    cases hget : st.slots.get? k with
    | none =>
      rw [slotAt_of_none hget] at hs
      obtain ⟨-, e, he, -⟩ := hs
      cases he
    | some s =>
      rw [slotAt_of_some hget] at hs hlaw
      have hnext := hs.sweepSlot (hr k s hget) (hlaw trivial)
      rw [slotAt_sweep_of_open hget hnext.1]
      exact hnext

/-- Taking in the top entry buffers it: there is no addition left for emitting it. -/
theorem holdsTop_of_takesIn {seals : Bool} {m : MergedEntry}
    (hlaw : CallLaw cfg k seals s l (.arrival m now)) (htake : takesIn cfg s m = true)
    (htop : ¬Indexable m) : HoldsTop (processSlot cfg s m now).1 := by
  refine processSlot_rule cfg now (C := fun r => HoldsTop r.1) ?_ ?_ ?_ ?_ ?_
  · intro hu
    simp [takesIn, hu] at htake
  · intro hu hlt
    simp [takesIn, hlt.ne, not_lt.mpr hlt.le] at htake
  · intro hu heq
    have hinc := (hlaw hu heq).1
    have hlt := (emitNext (touch s now) m now false 0).1.nextExpectedIdx.isLt
    unfold Indexable at htop
    rw [heq] at htop
    omega
  · exact fun hu _ _ => ⟨hu, _, (SortedMap.mem_insert _).mpr (Or.inl rfl), htop⟩
  · intro _ hlt hfull
    simp [takesIn, hlt.ne', not_lt.mpr hfull] at htake

/-- A run that keeps the law spares the top index. -/
theorem IndexLaw.sparesTop {now : Instant} (h : IndexLaw cfg is now) :
    (machine cfg).Along (SparesTop cfg) {} is := by
  intro pre i post his
  cases i with
  | sweep t => trivial
  | arrival m t =>
    intro htake
    by_contra htop
    set k := m.observation.slot with hk
    -- the top entry would be buffered from here to the shutdown
    have hheld : ∀ mid rest, post = mid ++ rest →
        HoldsTop (slotAt ((machine cfg).run {} (pre ++ .arrival m t :: mid)).1 k) := by
      intro mid
      induction mid using List.reverseRecOn with
      | nil =>
        intro rest hrest
        rw [EventMachine.run_snoc_fst, slotAt_arrival, if_pos hk]
        exact holdsTop_of_takesIn (h.calls pre _ post his k rfl) htake htop
      | append_singleton mid i ih =>
        intro rest hrest
        have hmid := ih (i :: rest) (by simp [hrest])
        have hsplit : is = (pre ++ .arrival m t :: mid) ++ i :: rest := by simp [his, hrest]
        have hsnoc : pre ++ .arrival m t :: (mid ++ [i]) = (pre ++ .arrival m t :: mid) ++ [i] := by
          simp
        rw [hsnoc, EventMachine.run_snoc_fst]
        exact holdsTop_step (allResting_run cfg _) hmid (h.calls _ i rest hsplit k)
    have hlast := hheld post [] (List.append_nil _).symm
    rw [← his] at hlast
    exact not_callLaw_of_holdsTop ((allResting_run cfg is).getD k) hlast cfg k _ now
      (h.flush k)

/-- In a run of fewer than `2 ^ 32` arrivals no addition overflows iff no entry of index
`u32::MAX` is taken in. -/
theorem indexLaw_iff (cfg : Config) (is : List Input) (now : Instant)
    (hlen : arrivals is < 2 ^ 32) :
    IndexLaw cfg is now ↔ (machine cfg).Along (SparesTop cfg) {} is :=
  ⟨IndexLaw.sparesTop, fun h => indexLaw_of_sparesTop h hlen now⟩

theorem indexLaw_iff_gap :
    IndexLaw defaultConfig [.arrival (sampleEntry 7 1 0 11) 0, .sweep 200000000,
      .arrival (sampleEntry 7 0 3 10) 210000000] 300000000 :=
  (indexLaw_iff defaultConfig _ 300000000 (by decide)).mpr (by decide)

/-- An update whose index, cast to `u32`, is the highest there is. -/
def topUpdate : Yellowstone.SubscribeUpdateEntry where
  slot := 7
  index := 2 ^ 33 - 1
  numHashes := 1
  hash := []
  executedTransactionCount := 1

/-- The shutdown gives up all indices below the entry and wraps around after emitting it. -/
theorem top_index_wraps :
    ¬IndexLaw defaultConfig [.arrival ⟨Yellowstone.decodeEntry topUpdate 0, .yellowstone⟩ 0] 1 := by
  intro h
  have htop := h.sparesTop [] _ [] rfl
  revert htop
  decide

end SolanaBench.TickTrigger.PohSupervisor
