import SolanaBench.Lib.OnceGuard
import SolanaBench.TickTrigger.PohLifetimes

/-! Slot lifecycle: how many terminal events a slot gets. Each lifetime gets
exactly one, so a slot is closed once iff its state is never created again after
a sweep has dropped it. -/
namespace SolanaBench.TickTrigger.PohSupervisor

def OrderedEvent.isTerminal : OrderedEvent → Bool
  | .slotComplete _ => true
  | .slotIncomplete _ => true
  | _ => false

/-- Exactly one terminal event, and nothing after it. -/
def ClosedOnce (l : List OrderedEvent) : Prop :=
  ∃ body term, l = body ++ [term] ∧ term.isTerminal = true ∧ ∀ e ∈ body, e.isTerminal = false

def terminals (l : List OrderedEvent) : ℕ := l.countP OrderedEvent.isTerminal

@[simp] theorem terminals_append (l m : List OrderedEvent) :
    terminals (l ++ m) = terminals l + terminals m := List.countP_append

theorem ClosedOnce.terminals {l : List OrderedEvent} (h : ClosedOnce l) :
    terminals l = 1 := by
  obtain ⟨body, term, rfl, ht, hb⟩ := h
  have hzero : PohSupervisor.terminals body = 0 :=
    List.countP_eq_zero.mpr fun e he => by simp [hb e he]
  rw [terminals_append, hzero]
  simp [PohSupervisor.terminals, ht]

theorem terminalEvent_isTerminal (s : PohSlot) (k : ℕ) :
    (terminalEvent s k).isTerminal = true := by
  unfold terminalEvent
  split_ifs <;> rfl

variable {P : MergedEntry → Prop} {Q : PohSlot → MergedEntry → Prop} {k : ℕ}

/-- An open slot has sent no terminal event, a sealed one has just been closed. -/
def Closing (s : PohSlot) (l : List OrderedEvent) : Prop :=
  (s.sealed = false → ∀ e ∈ l, e.isTerminal = false) ∧ (s.sealed = true → ClosedOnce l)

theorem Closing.snoc {s t : PohSlot} {l : List OrderedEvent} (h : Closing s l)
    (hs : s.sealed = false) (ht : t.sealed = false) {e : OrderedEvent}
    (he : e.isTerminal = false) : Closing t (l ++ [e]) := by
  refine ⟨fun _ x hx => ?_, fun ht' => by simp [ht] at ht'⟩
  rcases List.mem_append.mp hx with hx | hx
  · exact h.1 hs x hx
  · rw [List.mem_singleton.mp hx]
    exact he

theorem Closing.silent {s t : PohSlot} {l : List OrderedEvent} (h : Closing s l)
    (hst : t.sealed = s.sealed) : Closing t (l ++ []) := by
  unfold Closing
  rw [List.append_nil, hst]
  exact h

theorem Move.closing {s t : PohSlot} {l es : List OrderedEvent} (h : Move P Q k s es t)
    (hc : Closing s l) : Closing t (l ++ es) := by
  cases h with
  | emit p m now _ _ hs hm hidx hp hq => exact hc.snoc hs hs rfl
  | skip e _ hs he hgap => exact hc.snoc hs hs rfl
  | buffer m now last hs hm hq hidx => exact hc.silent rfl
  | refuse last hs => exact hc.silent rfl
  | late m last hs hq hidx => exact hc.silent rfl
  | close hs hp =>
    exact ⟨fun ht => by simp at ht, fun _ =>
      ⟨l, _, rfl, terminalEvent_isTerminal s k, hc.1 hs⟩⟩

theorem EndedLife.closedOnce {l : List OrderedEvent} (h : EndedLife P Q k l) : ClosedOnce l := by
  obtain ⟨s, hl, hsealed⟩ := h
  have hc := hl.rule Closing ⟨by simp, fun h => by simp at h⟩
    fun _ _ _ _ hc hm => hm.closing hc
  exact hc.2 hsealed

/-- Closed lifetimes in a row hold one terminal event each. -/
theorem terminals_flatten {ls : List (List OrderedEvent)} (h : ∀ l ∈ ls, ClosedOnce l) :
    terminals ls.flatten = ls.length := by
  induction ls with
  | nil => rfl
  | cons l ls ih =>
    have hl := (h l List.mem_cons_self).terminals
    have hrest := ih fun l' hl' => h l' (List.mem_cons_of_mem l hl')
    rw [List.flatten_cons, terminals_append, hl, hrest, List.length_cons]
    omega

/-- A slot is closed once iff it has lived once. -/
theorem closedOnce_flatten_iff {ls : List (List OrderedEvent)} (h : ∀ l ∈ ls, ClosedOnce l) :
    ClosedOnce ls.flatten ↔ ls.length = 1 := by
  constructor
  · intro hc
    rw [← terminals_flatten h]
    exact hc.terminals
  · intro hlen
    obtain ⟨l, rfl⟩ := List.length_eq_one_iff.mp hlen
    simpa using h l

/-! ## Forgetting and reviving -/

def arrivedSlot? : Input → Option ℕ
  | .arrival m _ => some m.observation.slot
  | .sweep _ => none

def arrivedSlots (is : List Input) : List ℕ := is.filterMap arrivedSlot?

/-- The highest slot that arrived, `0` before any. -/
def highestSlot (is : List Input) : ℕ := (arrivedSlots is).foldl max 0

/-- `i` is an arrival for slot `k`. -/
def Arrives (k : ℕ) (_ : List Input) (i : Input) : Prop :=
  ∃ m now, i = .arrival m now ∧ m.observation.slot = k

/-- `i`, after `pre`, is a sweep past the sealing lag and the drop cutoff of slot `k`. -/
def Drops (cfg : Config) (k : ℕ) (pre : List Input) (i : Input) : Prop :=
  (∃ now, i = .sweep now) ∧ lagsBehind cfg (highestSlot pre) k = true ∧
    k ≤ dropCutoff cfg (highestSlot pre)

/-- No arrival for slot `k` comes after a sweep that dropped the slot: a sweep past
both cutoffs of a slot that had arrived. -/
def NeverRevived (cfg : Config) (k : ℕ) (is : List Input) : Prop :=
  NeverRepeated (Arrives k) (Drops cfg k) is

@[simp] theorem arrivedSlots_append (is js : List Input) :
    arrivedSlots (is ++ js) = arrivedSlots is ++ arrivedSlots js := List.filterMap_append

@[simp] theorem arrivedSlots_arrival (m : MergedEntry) (now : Instant) :
    arrivedSlots [.arrival m now] = [m.observation.slot] := rfl

@[simp] theorem arrivedSlots_sweep (now : Instant) : arrivedSlots [.sweep now] = [] := rfl

theorem highestSlot_arrival (is : List Input) (m : MergedEntry) (now : Instant) :
    highestSlot (is ++ [.arrival m now]) = max (highestSlot is) m.observation.slot := by
  simp [highestSlot, List.foldl_append]

theorem highestSlot_sweep (is : List Input) (now : Instant) :
    highestSlot (is ++ [.sweep now]) = highestSlot is := by
  simp [highestSlot]

theorem arrives_arrival {pre : List Input} {m : MergedEntry} {now : Instant} :
    Arrives k pre (.arrival m now) ↔ m.observation.slot = k := by
  simp [Arrives]

theorem not_arrives_sweep {pre : List Input} {now : Instant} : ¬Arrives k pre (.sweep now) := by
  simp [Arrives]

theorem not_drops_arrival {cfg : Config} {pre : List Input} {m : MergedEntry} {now : Instant} :
    ¬Drops cfg k pre (.arrival m now) := by
  simp [Drops]

theorem mem_arrivedSlots_iff {is : List Input} :
    k ∈ arrivedSlots is ↔ SomeSplit (Arrives k) is := by
  constructor
  · intro h
    obtain ⟨i, hi, hk⟩ := List.mem_filterMap.mp h
    obtain ⟨pre, post, rfl⟩ := List.append_of_mem hi
    refine ⟨pre, i, post, rfl, ?_⟩
    cases i with
    | arrival m now => exact ⟨m, now, rfl, Option.some.inj hk⟩
    | sweep now => simp [arrivedSlot?] at hk
  · rintro ⟨pre, i, post, rfl, m, now, rfl, hk⟩
    simp [arrivedSlots, arrivedSlot?, hk]

theorem lagsBehind_mono {cfg : Config} {n m : ℕ} (hnm : n ≤ m) (h : lagsBehind cfg n k = true) :
    lagsBehind cfg m k = true := by
  simp only [lagsBehind, decide_eq_true_eq] at *
  omega

/-! ## Counting lifetimes -/

/-- What the inputs say of slot `k`. The map entry is a guard that lets the slot be
created once, until phase C drops it. -/
structure Census (cfg : Config) (k : ℕ) (is : List Input)
    (h : State × List (List OrderedEvent)) : Prop where
  resting : AllResting (fun _ => True) h.1.slots
  maxSlot : h.1.maxSlot = highestSlot is
  lagging : ∀ s, h.1.slots.get? k = some s → s.sealed = true →
    lagsBehind cfg (highestSlot is) k = true
  guarded : OnceGuard (Arrives k) (Drops cfg k) is (h.1.slots.get? k ≠ none) h.2.length

section Steps

variable {cfg : Config} {is : List Input} {h : State × List (List OrderedEvent)}

theorem census_init : Census cfg k [] ({}, []) where
  resting := by
    intro j s hs
    simp at hs
  maxSlot := rfl
  lagging := by
    intro s hs
    simp at hs
  guarded := OnceGuard.init (by simp)

/-- After a sweep the slot is sealed exactly if it lags behind. -/
theorem Census.sealed_sweepSlot (hc : Census cfg k is h) {s : PohSlot}
    (hs : h.1.slots.get? k = some s) (now : Instant) :
    (sweepSlot cfg k h.1.maxSlot now s).1.sealed = lagsBehind cfg (highestSlot is) k := by
  obtain ⟨-, -, heq⟩ := sweepSlot_trace (Q := fun _ _ => True) cfg h.1.maxSlot now
    (hc.resting k s hs)
  rw [heq, hc.maxSlot]
  cases hb : s.sealed with
  | false => rfl
  | true => rw [hc.lagging s hs hb]; rfl

/-- Phase C keeps the slot unless the sweep drops it. -/
theorem Census.keeps_iff (hc : Census cfg k is h) {s : PohSlot}
    (hs : h.1.slots.get? k = some s) (now : Instant) :
    keeps cfg k h.1.maxSlot (sweepSlot cfg k h.1.maxSlot now s).1 = true ↔
      ¬Drops cfg k is (.sweep now) := by
  rw [keeps, hc.sealed_sweepSlot hs, hc.maxSlot]
  constructor
  · rintro hkeep ⟨-, hlag, hcutoff⟩
    rw [hlag] at hkeep
    have hlt := by simpa using hkeep
    exact absurd hcutoff (not_le.mpr hlt)
  · intro hd
    by_contra hno
    simp only [Bool.or_eq_true, decide_eq_true_eq, Bool.not_eq_true', not_or, not_lt,
      Bool.not_eq_false] at hno
    exact hd ⟨⟨now, rfl⟩, hno.2, hno.1⟩

theorem Census.sweep {now : Instant} (hc : Census cfg k is h)
    {ls : List (List OrderedEvent)} (hls : ls.length = h.2.length) :
    Census cfg k (is ++ [.sweep now]) ((sweep cfg h.1 now).1, ls) := by
  refine ⟨allResting_sweep cfg now hc.resting, ?_, ?_, ?_⟩
  · rw [highestSlot_sweep]
    exact hc.maxSlot
  · intro s hs hb
    rw [get?_sweep] at hs
    obtain ⟨hmap, -⟩ := Option.filter_eq_some_iff.mp hs
    obtain ⟨t, ht, rfl⟩ := Option.map_eq_some_iff.mp hmap
    rw [highestSlot_sweep, ← hc.sealed_sweepSlot ht now]
    exact hb
  · rw [hls, get?_sweep]
    by_cases hd : Drops cfg k is (.sweep now)
    · refine hc.guarded.drop not_arrives_sweep hd (not_not.mpr ?_)
      cases hs : h.1.slots.get? k with
      | none => rfl
      | some s =>
        have hgone : ¬keeps cfg k h.1.maxSlot (sweepSlot cfg k h.1.maxSlot now s).1 = true :=
          fun hkeep => (hc.keeps_iff hs now).mp hkeep hd
        rw [Option.map_some, Option.filter_some_neg (Bool.eq_false_iff.mpr hgone)]
    · refine hc.guarded.other not_arrives_sweep hd ?_
      cases hs : h.1.slots.get? k with
      | none => simp
      | some s => simp [Option.filter_some_pos ((hc.keeps_iff hs now).mpr hd)]

theorem Census.arrival {m : MergedEntry} {now : Instant} (hc : Census cfg k is h)
    {ls : List (List OrderedEvent)}
    (hls : ls.length = h.2.length + if creates k h.1 (.arrival m now) then 1 else 0) :
    Census cfg k (is ++ [.arrival m now])
      (((machine cfg).step h.1 (.arrival m now)).1, ls) := by
  set j := m.observation.slot with hj
  obtain ⟨-, hr, hsealed⟩ := processSlot_trace (Q := fun _ _ => True) (k := j) cfg now
    (m := m) (hc.resting.getD j) ⟨rfl, trivial⟩ fun _ => trivial
  have hslots : ((machine cfg).step h.1 (.arrival m now)).1.slots = h.1.slots.insert j
      (processSlot cfg ((h.1.slots.get? j).getD {}) m now).1 := slots_arrival cfg h.1 m now
  have hmono : highestSlot is ≤ highestSlot (is ++ [.arrival m now]) := by
    rw [highestSlot_arrival]
    exact le_max_left _ _
  refine ⟨by rw [hslots]; exact hc.resting.insert hr, ?_, ?_, ?_⟩
  · rw [highestSlot_arrival, ← hc.maxSlot]
    rfl
  · intro s hs hb
    rw [hslots, SortedMap.get?_insert] at hs
    split_ifs at hs with hjk
    · rw [← Option.some.inj hs, hsealed] at hb
      cases ht : h.1.slots.get? k with
      | none => simp [← hjk, ht] at hb
      | some t =>
        refine lagsBehind_mono hmono (hc.lagging t ht ?_)
        simpa [← hjk, ht] using hb
    · exact lagsBehind_mono hmono (hc.lagging s hs hb)
  · have hcreates : creates k h.1 (.arrival m now) = true ↔ j = k ∧ h.1.slots.get? k = none := by
      simp [creates, ← hj]
    rw [hslots, SortedMap.get?_insert]
    by_cases hjk : j = k
    · refine hc.guarded.request (arrives_arrival.mpr hjk) not_drops_arrival ?_ ?_ ?_
      · simp [hjk]
      · intro hsome
        rw [hls, if_neg (by rw [hcreates]; exact fun hn => hsome hn.2), Nat.add_zero]
      · intro hnone
        rw [hls, if_pos (hcreates.mpr ⟨hjk, not_not.mp hnone⟩)]
    · have hlen : ls.length = h.2.length := by
        rw [hls, if_neg (by rw [hcreates]; exact fun hn => hjk hn.1), Nat.add_zero]
      rw [hlen]
      refine hc.guarded.other (fun ha => hjk (arrives_arrival.mp ha)) not_drops_arrival ?_
      rw [if_neg fun hk => hjk hk.symm]

end Steps

theorem census_run (cfg : Config) (k : ℕ) (is : List Input) :
    Census cfg k is ((recorder cfg k).run ({}, []) is).1 := by
  refine (recorder cfg k).run_rule (fun is h _ => Census cfg k is h) ({}, []) census_init ?_ is
  intro is h _ i hc
  cases i with
  | arrival m now => exact hc.arrival (length_recordEvents _ _ _)
  | sweep now => exact hc.sweep (length_recordEvents _ _ _)

/-- The number of lifetimes does not change at the shutdown. -/
theorem length_lifetimes (cfg : Config) (k : ℕ) (is : List Input) (now : Instant) :
    (lifetimes cfg k is now).length = ((recorder cfg k).run ({}, []) is).1.2.length := by
  simp only [lifetimes, length_recordEvents, Bool.false_eq_true, if_false, Nat.add_zero]

/-- A slot that arrived is closed exactly once iff no arrival finds its state
dropped: the law of the slot lifecycle, and the only way it fails. -/
theorem closedOnce_iff_neverRevived (cfg : Config) (is : List Input) (now : Instant) (k : ℕ)
    (harr : k ∈ arrivedSlots is) :
    ClosedOnce (eventsOf k (runLoop cfg is now)) ↔ NeverRevived cfg k is := by
  have hin : (machine cfg).Along (Meets (fun _ => True) fun _ _ => True) {} is := by
    intro pre i post his
    cases i with
    | arrival m t => exact ⟨trivial, fun _ => trivial⟩
    | sweep t => trivial
  obtain ⟨hflat, hended⟩ := lifetimes_spec hin k now
  have hclosed : ∀ l ∈ (lifetimes cfg k is now).reverse, ClosedOnce l := fun l hl =>
    (hended l (List.mem_reverse.mp hl)).closedOnce
  rw [← hflat, closedOnce_flatten_iff hclosed, List.length_reverse]
  rw [length_lifetimes]
  exact (census_run cfg k is).guarded.answered_eq_one_iff (mem_arrivedSlots_iff.mp harr)

theorem closedOnce_iff_neverRevived_sample :
    ClosedOnce (eventsOf 1 (runLoop defaultConfig
        [.arrival (sampleEntry 1 0 3 10) 0, .sweep 10000000] 20000000)) ↔
      NeverRevived defaultConfig 1 [.arrival (sampleEntry 1 0 3 10) 0, .sweep 10000000] :=
  closedOnce_iff_neverRevived defaultConfig _ 20000000 1 (by decide)

/-- Slot 1 is sealed and dropped once slot 100 is seen; its late entry creates the
slot again, and the shutdown seals it a second time. -/
theorem revived_slot_closed_twice :
    ¬∀ (cfg : Config) (is : List Input) (now : Instant) (k : ℕ), k ∈ arrivedSlots is →
      ClosedOnce (eventsOf k (runLoop cfg is now)) := by
  intro h
  have hone := (h defaultConfig
    [.arrival (sampleEntry 1 0 3 10) 0, .arrival (sampleEntry 100 0 3 20) 1, .sweep 10000000,
      .arrival (sampleEntry 1 1 3 11) 10000001] 20000000 1 (by decide)).terminals
  revert hone
  decide +kernel

end SolanaBench.TickTrigger.PohSupervisor
