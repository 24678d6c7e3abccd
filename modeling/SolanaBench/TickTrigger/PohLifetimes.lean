import SolanaBench.TickTrigger.PohSlotMoves

/-! The events of one slot over a whole run, cut into the lifetimes of its
`PohSlot`. Every lifetime is a trace of moves from the fresh slot state. -/
namespace SolanaBench.TickTrigger.PohSupervisor

def OrderedEvent.slot : OrderedEvent → ℕ
  | .entry e => e.slot
  | .missing m => m.slot
  | .slotComplete c => c.slot
  | .slotIncomplete c => c.slot

def eventsOf (k : ℕ) (es : List OrderedEvent) : List OrderedEvent :=
  es.filter fun e => decide (e.slot = k)

@[simp] theorem eventsOf_nil (k : ℕ) : eventsOf k [] = [] := rfl

@[simp] theorem eventsOf_append (k : ℕ) (es fs : List OrderedEvent) :
    eventsOf k (es ++ fs) = eventsOf k es ++ eventsOf k fs := List.filter_append ..

theorem eventsOf_eq_self {k : ℕ} {es : List OrderedEvent} (h : ∀ e ∈ es, e.slot = k) :
    eventsOf k es = es :=
  List.filter_eq_self.mpr fun e he => by simpa using h e he

theorem eventsOf_eq_nil {j k : ℕ} (hne : j ≠ k) {es : List OrderedEvent}
    (h : ∀ e ∈ es, e.slot = j) : eventsOf k es = [] :=
  List.filter_eq_nil_iff.mpr fun e he => by simpa [h e he] using hne

/-! ## Slots own their events -/

/-- An entry of slot `k` that meets `P`. -/
def Own (P : MergedEntry → Prop) (k : ℕ) (m : MergedEntry) : Prop :=
  m.observation.slot = k ∧ P m

theorem terminalEvent_slot (s : PohSlot) (k : ℕ) : (terminalEvent s k).slot = k := by
  unfold terminalEvent
  split_ifs <;> rfl

variable {P : MergedEntry → Prop} {Q : PohSlot → MergedEntry → Prop} {k : ℕ}

theorem Move.slot {s t : PohSlot} {es : List OrderedEvent} (h : Move (Own P k) Q k s es t) :
    ∀ e ∈ es, e.slot = k := by
  cases h with
  | emit p m now _ _ hs' hm hidx hp hq =>
    intro e he
    rw [List.mem_singleton.mp he]
    exact hm.1
  | skip e _ hs' he hgap => simp [OrderedEvent.slot]
  | buffer m now last hs' hm hq hidx => simp
  | refuse last hs' => simp
  | late m last hs' hq hidx => simp
  | close hs' hp => simpa using terminalEvent_slot s k

theorem trace_slot {s t : PohSlot} {es : List OrderedEvent}
    (h : Trace (Move (Own P k) Q k) s es t) : ∀ e ∈ es, e.slot = k := by
  exact h.rule (fun _ os => ∀ e ∈ os, e.slot = k) (by simp) (by
    intro t u os es hos hm e he
    rcases List.mem_append.mp he with he | he
    · exact hos e he
    · exact hm.slot e he)

/-- What holds of every slot kept by the worker between two calls. -/
def AllResting (P : MergedEntry → Prop) (slots : SortedMap ℕ PohSlot) : Prop :=
  ∀ k s, slots.get? k = some s → Resting (Own P k) s

theorem AllResting.insert {slots : SortedMap ℕ PohSlot} (h : AllResting P slots) {k : ℕ}
    {s : PohSlot} (hs : Resting (Own P k) s) : AllResting P (slots.insert k s) := by
  intro j t ht
  rw [SortedMap.get?_insert] at ht
  split_ifs at ht with hj
  · cases ht
    rw [hj]
    exact hs
  · exact h j t ht

theorem AllResting.getD {slots : SortedMap ℕ PohSlot} (h : AllResting P slots) (k : ℕ) :
    Resting (Own P k) ((slots.get? k).getD {}) := by
  cases hs : slots.get? k with
  | none => exact resting_new
  | some s => exact h k s hs

/-- An arrival touches its own slot, which it creates if need be. -/
theorem slots_arrival (cfg : Config) (st : State) (m : MergedEntry) (now : Instant) :
    ((machine cfg).step st (.arrival m now)).1.slots = st.slots.insert m.observation.slot
      (processSlot cfg ((st.slots.get? m.observation.slot).getD {}) m now).1 := rfl

/-! ## Visiting slots -/

/-- A visit that keeps its slot at rest and only sends events of that slot. -/
def OwnVisit (P : MergedEntry → Prop) (f : ℕ → PohSlot → PohSlot × List Output) : Prop :=
  ∀ k s, Resting (Own P k) s →
    Resting (Own P k) (f k s).1 ∧ ∀ e ∈ Effect.sent (f k s).2, e.slot = k

theorem eventsOf_sent (k : ℕ) (os : List Output) :
    eventsOf k (Effect.sent os) =
      os.filterMap (fun o => o.sent?.filter fun e => decide (e.slot = k)) := by
  unfold eventsOf Effect.sent
  rw [← List.filterMap_eq_filter, List.filterMap_filterMap]
  refine List.filterMap_congr fun o _ => ?_
  cases o.sent? with
  | none => rfl
  | some e => by_cases h : e.slot = k <;> simp [h, Option.guard, Option.filter]

theorem AllResting.forEach {f : ℕ → PohSlot → PohSlot × List Output} (hf : OwnVisit P f)
    {slots : SortedMap ℕ PohSlot} (h : AllResting P slots) (ks : List ℕ) :
    AllResting P (SortedMap.forEach f ks slots).1 := by
  induction ks generalizing slots with
  | nil => exact h
  | cons k ks ih =>
    unfold SortedMap.forEach
    split
    · exact ih h
    · next s hs => exact ih (h.insert (hf k s (h k s hs)).1)

/-- The events of `k` sent while visiting slots are those of the visit of `k`. -/
theorem eventsOf_forEach {f : ℕ → PohSlot → PohSlot × List Output} (hf : OwnVisit P f)
    {slots : SortedMap ℕ PohSlot} (h : AllResting P slots) {ks : List ℕ} (hks : ks.Nodup) (k : ℕ) :
    eventsOf k (Effect.sent (SortedMap.forEach f ks slots).2) =
      if k ∈ ks then ((slots.get? k).map (fun s => Effect.sent (f k s).2)).getD [] else [] := by
  rw [eventsOf_sent, SortedMap.filterMap_forEach f _ k hks]
  · split_ifs with hk
    · cases hs : slots.get? k with
      | none => rfl
      | some s =>
        have hown := (hf k s (h k s hs)).2
        simp only [Option.map_some, Option.getD_some]
        rw [← eventsOf_sent, eventsOf_eq_self hown]
    · rfl
  · intro j hj s hne hs
    rw [← eventsOf_sent]
    exact eventsOf_eq_nil hne (hf j s (h j s hs)).2

theorem ownVisit_sweepGaps (cfg : Config) (now : Instant) :
    OwnVisit P (fun k => ifUnsealed fun s => (sweepGaps cfg k now).exec s) := by
  intro k s hs
  obtain ⟨htr, hr, -⟩ := sweepGaps_trace (Q := fun _ _ => True) (k := k) cfg now hs
  exact ⟨hr, trace_slot htr⟩

theorem ownVisit_sealSlot (cfg : Config) (now : Instant) :
    OwnVisit P (fun k => ifUnsealed fun s => sealSlot cfg s k now) := by
  intro k s hs
  obtain ⟨htr, hr, -⟩ := sealSlot_ifUnsealed_trace (Q := fun _ _ => True) (k := k) cfg now hs
  exact ⟨hr, trace_slot htr⟩

/-! ## One sweep, seen from one slot -/

/-- Phases A and B on one slot. -/
def sweepSlot (cfg : Config) (k maxSlot : ℕ) (now : Instant) (s : PohSlot) :
    PohSlot × List Output :=
  let a := ifUnsealed (fun s => (sweepGaps cfg k now).exec s) s
  if lagsBehind cfg maxSlot k then
    let b := ifUnsealed (fun s => sealSlot cfg s k now) a.1
    (b.1, a.2 ++ b.2)
  else a

/-- Phase C keeps the slot. -/
def keeps (cfg : Config) (k maxSlot : ℕ) (s : PohSlot) : Bool :=
  decide (k > dropCutoff cfg maxSlot) || !s.sealed

theorem sweepSlot_trace (cfg : Config) (maxSlot : ℕ) (now : Instant) {s : PohSlot}
    (hs : Resting (Own P k) s) :
    let r := sweepSlot cfg k maxSlot now s
    Trace (Move (Own P k) Q k) s (Effect.sent r.2) r.1 ∧ Resting (Own P k) r.1 ∧
      r.1.sealed = (s.sealed || lagsBehind cfg maxSlot k) := by
  intro r
  obtain ⟨htr, hr, hsealed⟩ := sweepGaps_trace (Q := Q) (k := k) cfg now hs
  by_cases hlag : lagsBehind cfg maxSlot k = true
  · obtain ⟨htr', hr', hsealed'⟩ := sealSlot_ifUnsealed_trace (Q := Q) (k := k) cfg now hr
    simp only [r, sweepSlot, hlag, if_true, Effect.sent_append, Bool.or_true]
    exact ⟨htr.trans htr', hr', hsealed'⟩
  · simp only [r, sweepSlot, hlag, Bool.or_false, Bool.false_eq_true, if_false]
    exact ⟨htr, hr, hsealed⟩

theorem get?_visit_keys {f : ℕ → PohSlot → PohSlot × List Output} {slots : SortedMap ℕ PohSlot}
    (k : ℕ) :
    (SortedMap.forEach f slots.keys slots).1.get? k = (slots.get? k).map fun s => (f k s).1 := by
  by_cases hk : k ∈ slots.keys
  · exact SortedMap.get?_forEach_of_mem f SortedMap.keys_nodup hk slots
  · rw [SortedMap.get?_forEach_of_notMem f hk]
    cases hs : slots.get? k with
    | none => rfl
    | some s => exact absurd (SortedMap.mem_keys_iff.mpr ⟨s, hs⟩) hk

theorem eventsOf_visit_keys {f : ℕ → PohSlot → PohSlot × List Output} (hf : OwnVisit P f)
    {slots : SortedMap ℕ PohSlot} (h : AllResting P slots) (k : ℕ) :
    eventsOf k (Effect.sent (SortedMap.forEach f slots.keys slots).2) =
      ((slots.get? k).map (fun s => Effect.sent (f k s).2)).getD [] := by
  rw [eventsOf_forEach hf h SortedMap.keys_nodup]
  split_ifs with hk
  · rfl
  · cases hs : slots.get? k with
    | none => rfl
    | some s => exact absurd (SortedMap.mem_keys_iff.mpr ⟨s, hs⟩) hk

theorem toSeal_nodup (cfg : Config) (maxSlot : ℕ) (slots : SortedMap ℕ PohSlot) :
    (toSeal cfg maxSlot slots).Nodup :=
  List.Nodup.sublist (List.filter_sublist.map Prod.fst) SortedMap.keys_nodup

theorem mem_toSeal {cfg : Config} {maxSlot : ℕ} {slots : SortedMap ℕ PohSlot} {s : PohSlot}
    (hs : slots.get? k = some s) :
    k ∈ toSeal cfg maxSlot slots ↔ lagsBehind cfg maxSlot k = true ∧ s.sealed = false := by
  have hmem := SortedMap.get?_eq_some_iff.mp hs
  simp only [toSeal, List.mem_map, List.mem_filter, Bool.and_eq_true, Bool.not_eq_true',
    Prod.exists, exists_and_right, exists_eq_right]
  constructor
  · rintro ⟨t, ht, hlag, hu⟩
    rw [SortedMap.eq_of_mem_entries hmem ht]
    exact ⟨hlag, hu⟩
  · rintro ⟨hlag, hu⟩
    exact ⟨s, hmem, hlag, hu⟩

/-- Phase B seals the lagging slots and leaves the others alone. -/
theorem get?_sealPhase (cfg : Config) (maxSlot : ℕ) (now : Instant) (slots : SortedMap ℕ PohSlot)
    (k : ℕ) :
    let f := fun k => ifUnsealed fun s => sealSlot cfg s k now
    (SortedMap.forEach f (toSeal cfg maxSlot slots) slots).1.get? k =
      (slots.get? k).map fun s => if lagsBehind cfg maxSlot k then (f k s).1 else s := by
  intro f
  by_cases hk : k ∈ toSeal cfg maxSlot slots
  · rw [SortedMap.get?_forEach_of_mem f (toSeal_nodup ..) hk]
    cases hs : slots.get? k with
    | none => rfl
    | some s => simp [((mem_toSeal hs).mp hk).1]
  · rw [SortedMap.get?_forEach_of_notMem f hk]
    cases hs : slots.get? k with
    | none => rfl
    | some s =>
      have hnot : ¬(lagsBehind cfg maxSlot k = true ∧ s.sealed = false) :=
        fun h => hk ((mem_toSeal hs).mpr h)
      by_cases hlag : lagsBehind cfg maxSlot k = true
      · have hu : s.sealed = true := by simpa [hlag] using hnot
        simp [hlag, f, ifUnsealed_sealed hu]
      · simp [hlag]

theorem eventsOf_sealPhase (cfg : Config) (maxSlot : ℕ) (now : Instant)
    {slots : SortedMap ℕ PohSlot} (h : AllResting P slots) (k : ℕ) :
    let f := fun k => ifUnsealed fun s => sealSlot cfg s k now
    eventsOf k (Effect.sent (SortedMap.forEach f (toSeal cfg maxSlot slots) slots).2) =
      ((slots.get? k).map fun s =>
        if lagsBehind cfg maxSlot k then Effect.sent (f k s).2 else []).getD [] := by
  intro f
  rw [eventsOf_forEach (ownVisit_sealSlot cfg now) h (toSeal_nodup ..)]
  cases hs : slots.get? k with
  | none => simp
  | some s =>
    by_cases hlag : lagsBehind cfg maxSlot k = true
    · by_cases hu : s.sealed = true
      · have hk : k ∉ toSeal cfg maxSlot slots := fun hk => by simpa [hu] using (mem_toSeal hs).mp hk
        simp [hk, hlag, f, ifUnsealed_sealed hu]
      · have hk : k ∈ toSeal cfg maxSlot slots := (mem_toSeal hs).mpr ⟨hlag, by simpa using hu⟩
        simp [hk, hlag, f]
    · have hk : k ∉ toSeal cfg maxSlot slots := fun hk => hlag ((mem_toSeal hs).mp hk).1
      simp [hk, hlag]

section Sweep

variable (cfg : Config) (now : Instant) {st : State}

theorem allResting_sweepGaps (h : AllResting P st.slots) :
    AllResting P (SortedMap.forEach
      (fun k => ifUnsealed fun s => (sweepGaps cfg k now).exec s) st.slots.keys st.slots).1 :=
  h.forEach (ownVisit_sweepGaps cfg now) _

theorem allResting_sweep (h : AllResting P st.slots) :
    AllResting P (sweep cfg st now).1.slots := by
  intro k s hs
  have hb := (allResting_sweepGaps cfg now h).forEach
    (ownVisit_sealSlot cfg now) (toSeal cfg st.maxSlot (SortedMap.forEach
      (fun k => ifUnsealed fun s => (sweepGaps cfg k now).exec s) st.slots.keys st.slots).1)
  simp only [sweep] at hs
  rw [SortedMap.get?_retain] at hs
  exact hb k s (Option.filter_eq_some_iff.mp hs).1

theorem get?_sweep (k : ℕ) :
    (sweep cfg st now).1.slots.get? k =
      ((st.slots.get? k).map fun s => (sweepSlot cfg k st.maxSlot now s).1).filter
        (keeps cfg k st.maxSlot) := by
  have hb := get?_sealPhase cfg st.maxSlot now (SortedMap.forEach
    (fun k => ifUnsealed fun s => (sweepGaps cfg k now).exec s) st.slots.keys st.slots).1 k
  simp only [sweep]
  rw [SortedMap.get?_retain]
  rw [hb, get?_visit_keys, Option.map_map]
  congr 2
  funext s
  simp only [Function.comp_apply, sweepSlot]
  split_ifs <;> rfl

theorem eventsOf_sweep (h : AllResting P st.slots) (k : ℕ) :
    eventsOf k (Effect.sent (sweep cfg st now).2) =
      ((st.slots.get? k).map fun s =>
        Effect.sent (sweepSlot cfg k st.maxSlot now s).2).getD [] := by
  have hb := eventsOf_sealPhase cfg st.maxSlot now (allResting_sweepGaps cfg now h) k
  simp only [sweep, Effect.sent_append, eventsOf_append]
  rw [hb, eventsOf_visit_keys (ownVisit_sweepGaps cfg now) h, get?_visit_keys]
  cases st.slots.get? k with
  | none => rfl
  | some s =>
    simp only [Option.map_some, Option.getD_some, sweepSlot]
    split_ifs
    · rw [Effect.sent_append]
    · simp

/-- The shutdown sends what its sweep sends and then the flush of the slot that is left. -/
theorem eventsOf_shutdown (h : AllResting P st.slots) (k : ℕ) :
    eventsOf k (Effect.sent (shutdown cfg st now).2) =
      eventsOf k (Effect.sent (sweep cfg st now).2) ++
        (((sweep cfg st now).1.slots.get? k).map fun s => Effect.sent
          (ifUnsealed (fun s => sealSlot cfg s k now) s).2).getD [] := by
  rw [← eventsOf_visit_keys (ownVisit_sealSlot cfg now) (allResting_sweep cfg now h)]
  simp [shutdown]

end Sweep

/-! ## Lifetimes -/

/-- Whether an input creates the `PohSlot` of `k`. -/
def creates (k : ℕ) (st : State) : Input → Bool
  | .arrival m _ => decide (m.observation.slot = k) && (st.slots.get? k).isNone
  | .sweep _ => false

/-- Add the events of one input to the lifetimes so far, newest lifetime first. -/
def recordEvents (created : Bool) (es : List OrderedEvent) :
    List (List OrderedEvent) → List (List OrderedEvent)
  | [] => if created then [es] else []
  | l :: ls => if created then es :: l :: ls else (l ++ es) :: ls

def recorder (cfg : Config) (k : ℕ) : EventMachine (State × List (List OrderedEvent)) Input Output :=
  (machine cfg).withHistory fun st i os =>
    recordEvents (creates k st i) (eventsOf k (Effect.sent os))

/-- The events of slot `k` from start to shutdown, one list for each time its
`PohSlot` was created, newest first. -/
def lifetimes (cfg : Config) (k : ℕ) (is : List Input) (now : Instant) :
    List (List OrderedEvent) :=
  let h := ((recorder cfg k).run ({}, []) is).1
  recordEvents false (eventsOf k (Effect.sent (shutdown cfg h.1 now).2)) h.2

/-- A lifetime of slot `k` that has led to `s`. -/
def Life (P : MergedEntry → Prop) (Q : PohSlot → MergedEntry → Prop) (k : ℕ)
    (l : List OrderedEvent) (s : PohSlot) : Prop :=
  Trace (Move (Own P k) Q k) {} l s

def EndedLife (P : MergedEntry → Prop) (Q : PohSlot → MergedEntry → Prop) (k : ℕ)
    (l : List OrderedEvent) : Prop :=
  ∃ s, Life P Q k l s ∧ s.sealed = true

/-- The newest lifetime is the one of the slot state at hand, the others have ended. -/
def Lives (P : MergedEntry → Prop) (Q : PohSlot → MergedEntry → Prop) (k : ℕ) :
    Option PohSlot → List (List OrderedEvent) → Prop
  | none, ls => ∀ l ∈ ls, EndedLife P Q k l
  | some s, ls => ∃ l rest, ls = l :: rest ∧ Life P Q k l s ∧ ∀ l ∈ rest, EndedLife P Q k l

/-- The step of an unchanged or moved slot state. -/
theorem Lives.moved {o : Option PohSlot} {ls : List (List OrderedEvent)} (h : Lives P Q k o ls)
    {f : PohSlot → PohSlot × List OrderedEvent}
    (hf : ∀ s, o = some s → Trace (Move (Own P k) Q k) s (f s).2 (f s).1) :
    Lives P Q k (o.map fun s => (f s).1)
      (recordEvents false ((o.map fun s => (f s).2).getD []) ls) := by
  cases o with
  | none =>
    have hls : recordEvents false [] ls = ls := by cases ls <;> simp [recordEvents]
    simpa [hls] using h
  | some s =>
    obtain ⟨l, rest, rfl, hl, hrest⟩ := h
    exact ⟨l ++ (f s).2, rest, rfl, hl.trans (hf s rfl), hrest⟩

/-- Dropping a sealed slot state ends its lifetime. -/
theorem Lives.filter {o : Option PohSlot} {ls : List (List OrderedEvent)} (h : Lives P Q k o ls)
    {keep : PohSlot → Bool} (hkeep : ∀ s, keep s = false → s.sealed = true) :
    Lives P Q k (o.filter keep) ls := by
  cases o with
  | none => exact h
  | some s =>
    cases hs : keep s with
    | true =>
      rw [Option.filter_some_pos hs]
      exact h
    | false =>
      rw [Option.filter_some_neg hs]
      obtain ⟨l, rest, rfl, hl, hrest⟩ := h
      intro l' hl'
      rcases List.mem_cons.mp hl' with rfl | hl'
      · exact ⟨s, hl, hkeep s hs⟩
      · exact hrest l' hl'

theorem flatten_recordEvents {c : Bool} {es : List OrderedEvent} {ls : List (List OrderedEvent)}
    (h : c = false → ls = [] → es = []) :
    (recordEvents c es ls).reverse.flatten = ls.reverse.flatten ++ es := by
  cases ls with
  | nil => cases c <;> simp_all [recordEvents]
  | cons l ls => cases c <;> simp [recordEvents]

theorem length_recordEvents (c : Bool) (es : List OrderedEvent) (ls : List (List OrderedEvent)) :
    (recordEvents c es ls).length = ls.length + if c then 1 else 0 := by
  cases ls <;> cases c <;> rfl

/-- What an arrival has to meet: `P`, and `Q` of the unsealed state it finds. -/
def Meets (P : MergedEntry → Prop) (Q : PohSlot → MergedEntry → Prop) (st : State) : Input → Prop
  | .arrival m _ =>
    let s := (st.slots.get? m.observation.slot).getD {}
    P m ∧ (s.sealed = false → Q s m)
  | .sweep _ => True

instance [DecidablePred P] [∀ s m, Decidable (Q s m)] (st : State) (i : Input) :
    Decidable (Meets P Q st i) :=
  match i with
  | .arrival _ _ => inferInstanceAs (Decidable (_ ∧ (_ → _)))
  | .sweep _ => .isTrue trivial

/-- The invariant of a run with recorded lifetimes. -/
structure Chronicle (P : MergedEntry → Prop) (Q : PohSlot → MergedEntry → Prop) (k : ℕ)
    (h : State × List (List OrderedEvent)) (os : List Output) : Prop where
  resting : AllResting P h.1.slots
  lives : Lives P Q k (h.1.slots.get? k) h.2
  flatten : h.2.reverse.flatten = eventsOf k (Effect.sent os)

theorem chronicle_init : Chronicle P Q k ({}, []) [] := by
  refine ⟨?_, ?_, rfl⟩
  · intro j s hs
    simp at hs
  · intro l hl
    simp at hl

theorem Lives.ne_nil {s : PohSlot} {ls : List (List OrderedEvent)}
    (h : Lives P Q k (some s) ls) : ls ≠ [] := by
  obtain ⟨l, rest, rfl, -⟩ := h
  simp

section Chronicles

variable {cfg : Config} {h : State × List (List OrderedEvent)} {os : List Output}

theorem Chronicle.sweep (hc : Chronicle P Q k h os) (cfg : Config) (now : Instant) :
    Chronicle P Q k
      ((sweep cfg h.1 now).1,
        recordEvents false (eventsOf k (Effect.sent (sweep cfg h.1 now).2)) h.2)
      (os ++ (sweep cfg h.1 now).2) := by
  have hes := eventsOf_sweep cfg now hc.resting k
  refine ⟨allResting_sweep cfg now hc.resting, ?_, ?_⟩
  · simp only [hes, get?_sweep]
    have hm := hc.lives.moved
      (f := fun s => ((sweepSlot cfg k h.1.maxSlot now s).1,
        Effect.sent (sweepSlot cfg k h.1.maxSlot now s).2))
      (fun s hs => (sweepSlot_trace cfg _ now (hc.resting k s hs)).1)
    exact hm.filter fun s hkeep => by simp [keeps] at hkeep; exact hkeep.2
  · rw [flatten_recordEvents, hc.flatten, Effect.sent_append, eventsOf_append]
    intro _ hnil
    rw [hes]
    cases hs : h.1.slots.get? k with
    | none => rfl
    | some s => exact absurd hnil (hs ▸ hc.lives).ne_nil

theorem Chronicle.arrival (hc : Chronicle P Q k h os) (cfg : Config) {m : MergedEntry}
    {now : Instant} (hm : Meets P Q h.1 (.arrival m now)) :
    let r := (machine cfg).step h.1 (.arrival m now)
    Chronicle P Q k
      (r.1, recordEvents (creates k h.1 (.arrival m now)) (eventsOf k (Effect.sent r.2)) h.2)
      (os ++ r.2) := by
  intro r
  obtain ⟨hP, hQ⟩ := hm
  set j := m.observation.slot with hj
  obtain ⟨htr, hr, -⟩ := processSlot_trace (k := j) cfg now (hc.resting.getD j) ⟨rfl, hP⟩ hQ
  have hslots : r.1.slots = h.1.slots.insert j
      (processSlot cfg ((h.1.slots.get? j).getD {}) m now).1 := slots_arrival cfg h.1 m now
  have hout : r.2 = (processSlot cfg ((h.1.slots.get? j).getD {}) m now).2 := rfl
  refine ⟨?_, ?_, ?_⟩
  · rw [hslots]
    exact hc.resting.insert hr
  · by_cases hjk : j = k
    · subst hjk
      simp only [hslots, hout, SortedMap.get?_insert_self, eventsOf_eq_self (trace_slot htr)]
      cases hs : h.1.slots.get? j with
      | none =>
        have hlives : ∀ l ∈ h.2, EndedLife P Q j l := by simpa [hs, Lives] using hc.lives
        simp only [hs, Option.getD_none] at htr
        refine ⟨_, h.2, ?_, htr, hlives⟩
        cases h.2 <;> simp [creates, recordEvents, hs, ← hj]
      | some s =>
        simp only [hs, Option.getD_some] at htr
        have hmv := hc.lives.moved
          (f := fun s => ((processSlot cfg s m now).1, Effect.sent (processSlot cfg s m now).2))
          (fun s' hs' => by rw [hs] at hs'; cases hs'; exact htr)
        simpa [hs, creates] using hmv
    · have hne : k ≠ j := fun hk => hjk hk.symm
      have hnone : eventsOf k (Effect.sent r.2) = [] := eventsOf_eq_nil hjk (trace_slot htr)
      have hsame : recordEvents (creates k h.1 (.arrival m now)) [] h.2 = h.2 := by
        cases h.2 <;> simp [creates, recordEvents, ← hj, hjk]
      simp only [hnone, hsame, hslots, SortedMap.get?_insert_of_ne hne]
      exact hc.lives
  · rw [flatten_recordEvents, hc.flatten, Effect.sent_append, eventsOf_append]
    intro hcr hnil
    by_cases hjk : j = k
    · cases hs : h.1.slots.get? k with
      | none => simp [creates, ← hj, hjk, hs] at hcr
      | some s => exact absurd hnil (hs ▸ hc.lives).ne_nil
    · exact eventsOf_eq_nil hjk (trace_slot htr)

/-- The shutdown flush leaves no unsealed slot, so every lifetime has ended. -/
theorem Chronicle.shutdown (hc : Chronicle P Q k h os) (cfg : Config) (now : Instant) :
    let ls := recordEvents false (eventsOf k (Effect.sent (shutdown cfg h.1 now).2)) h.2
    ls.reverse.flatten = eventsOf k (Effect.sent (os ++ (shutdown cfg h.1 now).2)) ∧
      ∀ l ∈ ls, EndedLife P Q k l := by
  have hw := hc.sweep cfg now
  set st := (PohSupervisor.sweep cfg h.1 now).1 with hst
  have hes := eventsOf_shutdown cfg now hc.resting k
  rw [← hst] at hes
  intro ls
  have hls : ls = recordEvents false
      (((st.slots.get? k).map fun s => Effect.sent
        (ifUnsealed (fun s => sealSlot cfg s k now) s).2).getD [])
      (recordEvents false (eventsOf k (Effect.sent (PohSupervisor.sweep cfg h.1 now).2)) h.2) := by
    simp only [ls, hes]
    cases h.2 <;> simp [recordEvents]
  have hlives := hw.lives.moved
    (f := fun s => ((ifUnsealed (fun s => sealSlot cfg s k now) s).1,
      Effect.sent (ifUnsealed (fun s => sealSlot cfg s k now) s).2))
    (fun s hs => (sealSlot_ifUnsealed_trace cfg now (hw.resting k s hs)).1)
  simp only at hlives
  rw [← hls] at hlives
  constructor
  · rw [hls, flatten_recordEvents, hw.flatten]
    · simp only [Effect.sent_append, eventsOf_append, List.append_assoc, hes]
    · intro _ hnil
      cases hs : st.slots.get? k with
      | none => rfl
      | some s => exact absurd hnil (hs ▸ hw.lives).ne_nil
  · cases hs : st.slots.get? k with
    | none => simpa [hs, Lives] using hlives
    | some s =>
      simp only [hs, Option.map_some] at hlives
      obtain ⟨l, rest, hlr, hl, hrest⟩ := hlives
      have hsealed := (sealSlot_ifUnsealed_trace (Q := Q) (k := k) cfg now (hw.resting k s hs)).2.2
      intro l' hl'
      rw [hlr] at hl'
      rcases List.mem_cons.mp hl' with rfl | hl'
      · exact ⟨_, hl, hsealed⟩
      · exact hrest l' hl'

/-- The run lemma: a run whose arrivals meet `P` and `Q` keeps the chronicle. -/
theorem chronicle_run {is : List Input} (hin : (machine cfg).Along (Meets P Q) {} is) :
    Chronicle P Q k ((recorder cfg k).run ({}, []) is).1 ((recorder cfg k).run ({}, []) is).2 := by
  have hin' := ((machine cfg).along_withHistory (fun st i os =>
    recordEvents (creates k st i) (eventsOf k (Effect.sent os))) (Meets P Q) ({}, []) is).mpr hin
  refine EventMachine.along_rule (M := recorder cfg k) (fun h i => Meets P Q h.1 i)
    (fun _ h os => Chronicle P Q k h os) chronicle_init ?_ hin'
  intro _ h os i hi hc
  cases i with
  | arrival m now => exact hc.arrival cfg hi
  | sweep now =>
    have hw := hc.sweep cfg now
    simpa [recorder, EventMachine.withHistory, machine, creates] using hw

/-- Every slot state of a run is at rest between two inputs. -/
theorem resting_run {is : List Input} (hin : (machine cfg).Along (Meets P Q) {} is) (k : ℕ) :
    Resting (Own P k) ((((machine cfg).run {} is).1.slots.get? k).getD {}) := by
  have hc := (chronicle_run (k := k) hin).resting
  have hproj := (machine cfg).run_withHistory (fun st i os =>
    recordEvents (creates k st i) (eventsOf k (Effect.sent os))) ({}, []) is
  have hslots : AllResting P ((machine cfg).run {} is).1.slots := by
    rw [← hproj.1]
    exact hc
  exact hslots.getD k

end Chronicles

/-- The lifetimes hold exactly the events of the slot, and each has ended. -/
theorem lifetimes_spec {cfg : Config} {is : List Input}
    (hin : (machine cfg).Along (Meets P Q) {} is) (k : ℕ) (now : Instant) :
    (lifetimes cfg k is now).reverse.flatten = eventsOf k (runLoop cfg is now) ∧
      ∀ l ∈ lifetimes cfg k is now, EndedLife P Q k l := by
  have hc := (chronicle_run (k := k) hin).shutdown cfg now
  have hproj := (machine cfg).run_withHistory (fun st i os =>
    recordEvents (creates k st i) (eventsOf k (Effect.sent os))) ({}, []) is
  simp only [lifetimes, runLoop]
  rw [← hproj.2, ← hproj.1]
  exact hc

/-! The default configuration and sample entries, for runs on concrete inputs. -/

/-- `entry_timeout_ms` 150, `slot_seal_lag_slots` 10 and the buffer of `phase3_run`. -/
def defaultConfig : Config := ⟨150000000, 10, 1024⟩

def sampleEntry (slot : ℕ) (idx : U32) (txCount : ℕ) (hash : Hash) : MergedEntry where
  observation :=
    { source := .shredStream, observedAt := 0, slot := slot, entryIndex := idx, numHashes := 1,
      entryHash := hash, txCount := txCount, signatures := [] }
  firstSeenSource := .shredStream

end SolanaBench.TickTrigger.PohSupervisor
