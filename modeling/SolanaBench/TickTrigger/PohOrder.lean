import Mathlib.Data.List.Range
import SolanaBench.TickTrigger.PohLifetimes

/-! Order and gap structure of a lifetime: its `Entry` and `Missing` events carry
the indices `0, 1, …, n - 1`, and the terminal event counts them. -/
namespace SolanaBench.TickTrigger.PohSupervisor

def OrderedEvent.entry? : OrderedEvent → Option OrderedEntry
  | .entry e => some e
  | _ => none

def OrderedEvent.missing? : OrderedEvent → Option OrderedMissing
  | .missing m => some m
  | _ => none

/-- The PoH index an event speaks about; terminal events have none. -/
def OrderedEvent.index? : OrderedEvent → Option ℕ
  | .entry e => some e.entryIndex.val
  | .missing m => some m.entryIndex.val
  | _ => none

def entriesIn (l : List OrderedEvent) : List OrderedEntry := l.filterMap OrderedEvent.entry?

def missingsIn (l : List OrderedEvent) : List OrderedMissing := l.filterMap OrderedEvent.missing?

@[simp] theorem entriesIn_nil : entriesIn [] = [] := rfl

@[simp] theorem missingsIn_nil : missingsIn [] = [] := rfl

@[simp] theorem entriesIn_append (l m : List OrderedEvent) :
    entriesIn (l ++ m) = entriesIn l ++ entriesIn m := List.filterMap_append

@[simp] theorem missingsIn_append (l m : List OrderedEvent) :
    missingsIn (l ++ m) = missingsIn l ++ missingsIn m := List.filterMap_append

@[simp] theorem entriesIn_entry (e : OrderedEntry) : entriesIn [.entry e] = [e] := rfl

@[simp] theorem entriesIn_missing (m : OrderedMissing) : entriesIn [.missing m] = [] := rfl

@[simp] theorem missingsIn_entry (e : OrderedEntry) : missingsIn [.entry e] = [] := rfl

@[simp] theorem missingsIn_missing (m : OrderedMissing) : missingsIn [.missing m] = [m] := rfl

theorem mem_entriesIn {l : List OrderedEvent} {e : OrderedEntry} :
    e ∈ entriesIn l ↔ .entry e ∈ l := by
  unfold entriesIn
  rw [List.mem_filterMap]
  constructor
  · rintro ⟨x, hx, he⟩
    cases x <;> simp [OrderedEvent.entry?] at he
    subst he
    exact hx
  · intro h
    exact ⟨.entry e, h, rfl⟩

/-- The events of `l` carry the indices `0, …, n - 1`, each once and in this order. -/
def Numbered (n : ℕ) (l : List OrderedEvent) : Prop :=
  l.map OrderedEvent.index? = (List.range n).map some

theorem Numbered.snoc {n : ℕ} {l : List OrderedEvent} (h : Numbered n l) {x : OrderedEvent}
    (hx : x.index? = some n) : Numbered (n + 1) (l ++ [x]) := by
  unfold Numbered at *
  rw [List.map_append, h, List.range_succ, List.map_append, List.map_singleton, hx]
  rfl

theorem Numbered.length {n : ℕ} {l : List OrderedEvent} (h : Numbered n l) : l.length = n := by
  have hlen := congrArg List.length h
  simpa using hlen

theorem Numbered.index?_ne_none {n : ℕ} {l : List OrderedEvent} (h : Numbered n l) :
    ∀ x ∈ l, x.index? ≠ none := by
  intro x hx hnone
  have hmem : x.index? ∈ l.map OrderedEvent.index? := List.mem_map_of_mem hx
  rw [h, hnone] at hmem
  simp at hmem

/-- Each numbered event is an entry or a gap. -/
theorem Numbered.counts {n : ℕ} {l : List OrderedEvent} (h : Numbered n l) :
    (entriesIn l).length + (missingsIn l).length = n := by
  have hsome := h.index?_ne_none
  rw [← h.length]
  clear h
  induction l with
  | nil => rfl
  | cons x xs ih =>
    have ih := ih fun y hy => hsome y (List.mem_cons_of_mem x hy)
    have hx := hsome x List.mem_cons_self
    cases x with
    | entry e => simp only [entriesIn, missingsIn, OrderedEvent.entry?, OrderedEvent.missing?,
        List.filterMap_cons, List.length_cons] at ih ⊢; omega
    | missing m => simp only [entriesIn, missingsIn, OrderedEvent.entry?, OrderedEvent.missing?,
        List.filterMap_cons, List.length_cons] at ih ⊢; omega
    | slotComplete c => exact absurd rfl hx
    | slotIncomplete c => exact absurd rfl hx

/-- Entries of a numbered log come in increasing index order. -/
theorem Numbered.entries_sorted {n : ℕ} {l : List OrderedEvent} (h : Numbered n l) :
    (entriesIn l).Pairwise (fun e f => e.entryIndex < f.entryIndex) := by
  have hp : (l.map OrderedEvent.index?).Pairwise
      (fun a b => ∀ i j, a = some i → b = some j → i < j) := by
    rw [h, List.pairwise_map]
    refine List.pairwise_lt_range.imp fun {a b} hab i j hi hj => ?_
    rw [← Option.some.inj hi, ← Option.some.inj hj]
    exact hab
  refine List.pairwise_filterMap.mpr ((List.pairwise_map.mp hp).imp ?_)
  intro x y hxy e he f hf
  cases x <;> simp [OrderedEvent.entry?] at he
  cases y <;> simp [OrderedEvent.entry?] at hf
  subst he hf
  exact hxy _ _ rfl rfl

/-! ## The counters of the slot state -/

/-- `tick_uncertain` of an entry says whether a `Missing` came before it. -/
def UncertainAfterMissing (pre : List OrderedEvent) (x : OrderedEvent) : Prop :=
  ∀ e, x = .entry e → (e.tickUncertain = true ↔ missingsIn pre ≠ [])

/-- The slot state agrees with the events emitted so far in this lifetime. -/
structure Accounts (s : PohSlot) (l : List OrderedEvent) : Prop where
  numbered : Numbered s.nextExpectedIdx.val l
  missingCount : s.missingCount = (missingsIn l).length
  totalEmitted : s.totalEmitted = (entriesIn l).length
  lastHash : s.lastEntryHash = (entriesIn l).getLast?.map fun e => e.observation.entryHash
  hasMissing : s.hasMissing = true ↔ missingsIn l ≠ []
  uncertain : EverySplit UncertainAfterMissing l

/-- An index below `u32::MAX`: the expected index then never wraps. -/
def Indexable (m : MergedEntry) : Prop := m.observation.entryIndex.val < 2 ^ 32 - 1

instance : DecidablePred Indexable := fun _ => Nat.decLt _ _

theorem val_add_one_of_lt {n : U32} (h : n.val < 2 ^ 32 - 1) : (n + 1).val = n.val + 1 :=
  Fin.val_add_one_of_lt' (by omega)

theorem accounts_new : Accounts {} [] where
  numbered := rfl
  missingCount := rfl
  totalEmitted := rfl
  lastHash := rfl
  hasMissing := by simp
  uncertain := EverySplit.nil

theorem Accounts.emitted {s : PohSlot} {l : List OrderedEvent} (h : Accounts s l)
    {m : MergedEntry} (hm : Indexable m) (hidx : m.observation.entryIndex = s.nextExpectedIdx)
    (p : SortedMap U32 PendingEntry) (now : Instant) (wasReordered : Bool) (waitUs : ℕ) :
    Accounts (emitted s p m now) (l ++ [entryEventOf s m now wasReordered waitUs]) := by
  have hlt : s.nextExpectedIdx.val < 2 ^ 32 - 1 := by
    rw [← hidx]
    exact hm
  have hcounts := h.numbered.counts
  have hnext : (PohSupervisor.emitted s p m now).nextExpectedIdx.val = s.nextExpectedIdx.val + 1 :=
    val_add_one_of_lt hlt
  have hindex : (entryEventOf s m now wasReordered waitUs).index? = some s.nextExpectedIdx.val := by
    rw [← hidx]
    rfl
  refine ⟨?_, ?_, ?_, ?_, ?_, h.uncertain.snoc ?_⟩
  · rw [hnext]
    exact h.numbered.snoc hindex
  · simpa [entryEventOf] using h.missingCount
  · simp only [emitted_totalEmitted, h.totalEmitted, entryEventOf, entriesIn_append, entriesIn_entry,
      List.length_append, List.length_singleton, satAddU32, U32.MAX]
    omega
  · simp [entryEventOf, entryEvent]
  · simpa [entryEventOf] using h.hasMissing
  · intro e he
    rw [← h.hasMissing, ← OrderedEvent.entry.inj he]
    rfl

theorem Accounts.skipped {s : PohSlot} {l : List OrderedEvent} (h : Accounts s l)
    (hlt : s.nextExpectedIdx.val < 2 ^ 32 - 1) (k waitUs : ℕ) :
    Accounts (skipped s) (l ++ [.missing ⟨k, s.nextExpectedIdx, waitUs⟩]) := by
  have hcounts := h.numbered.counts
  have hnext : (PohSupervisor.skipped s).nextExpectedIdx.val = s.nextExpectedIdx.val + 1 :=
    val_add_one_of_lt hlt
  refine ⟨?_, ?_, ?_, ?_, ?_, h.uncertain.snoc ?_⟩
  · rw [hnext]
    exact h.numbered.snoc rfl
  · simp only [skipped_missingCount, h.missingCount, missingsIn_append, missingsIn_missing, List.length_append,
      List.length_singleton, satAddU32, U32.MAX]
    omega
  · simpa using h.totalEmitted
  · simpa using h.lastHash
  · simp
  · intro e he
    simp at he

/-- `h` is the hash of the highest-index entry of `l`. -/
def HighestHash (l : List OrderedEvent) (h : Hash) : Prop :=
  ∀ e ∈ entriesIn l, (∀ f ∈ entriesIn l, f.entryIndex ≤ e.entryIndex) →
    h = e.observation.entryHash

/-- What the terminal event says of the entries and gaps before it. -/
def TerminalFor (l : List OrderedEvent) : OrderedEvent → Prop
  | .slotComplete c =>
    c.missingCount = (missingsIn l).length ∧ c.totalEntries = (entriesIn l).length ∧
      HighestHash l c.lastEntryHash
  | .slotIncomplete c =>
    c.missingCount = (missingsIn l).length ∧ HighestHash l c.lastEntryHash
  | _ => False

theorem Accounts.highestHash {s : PohSlot} {l : List OrderedEvent} (h : Accounts s l) :
    HighestHash l (s.lastEntryHash.getD 0) := by
  intro e he hmax
  have hne : entriesIn l ≠ [] := List.ne_nil_of_mem he
  have hlast : (entriesIn l).getLast hne = e := by
    by_contra hdiff
    have hsplit := List.dropLast_append_getLast hne
    have hmem : e ∈ (entriesIn l).dropLast := by
      rw [← hsplit] at he
      rcases List.mem_append.mp he with he | he
      · exact he
      · exact absurd (List.mem_singleton.mp he).symm hdiff
    have hs := h.numbered.entries_sorted
    rw [← hsplit] at hs
    have hlt := (List.pairwise_append.mp hs).2.2 e hmem _ (List.mem_singleton.mpr rfl)
    exact absurd (hmax _ (List.getLast_mem hne)) (not_le.mpr hlt)
  rw [h.lastHash, List.getLast?_eq_some_getLast hne, hlast]
  rfl

theorem Accounts.terminalFor {s : PohSlot} {l : List OrderedEvent} (h : Accounts s l) (k : ℕ) :
    TerminalFor l (terminalEvent s k) := by
  unfold terminalEvent
  split_ifs
  · exact ⟨h.missingCount, h.totalEmitted, h.highestHash⟩
  · exact ⟨h.missingCount, h.highestHash⟩

/-- An unsealed slot accounts for its log; a sealed one has closed it. -/
def Ordered (s : PohSlot) (l : List OrderedEvent) : Prop :=
  (s.sealed = false → Accounts s l) ∧
    (s.sealed = true → ∃ body term, l = body ++ [term] ∧ Accounts s body ∧ TerminalFor body term)

variable {P : MergedEntry → Prop} {Q : PohSlot → MergedEntry → Prop} {k : ℕ}

/-- The step lemma: every move keeps the accounts of an unsealed slot, and the
closing move completes them. -/
theorem Move.ordered {s t : PohSlot} {l es : List OrderedEvent} (hP : ∀ m, P m → Indexable m)
    (h : Move P Q k s es t) (hb : Buffered P s) (ho : Ordered s l) : Ordered t (l ++ es) := by
  cases h with
  | emit p m now wasReordered waitUs hs hm hidx hp hq =>
    have ha := (ho.1 hs).emitted (hP m hm) hidx p now wasReordered waitUs
    exact ⟨fun _ => ha, fun ht => by simp [hs] at ht⟩
  | skip e waitUs hs he hgap =>
    have hlt : s.nextExpectedIdx.val < 2 ^ 32 - 1 := by
      have hlast := hP _ (hb e he).1
      unfold Indexable at hlast
      rw [(hb e he).2] at hlast
      exact (Fin.lt_def.mp (hgap e he)).trans hlast
    exact ⟨fun _ => (ho.1 hs).skipped hlt k waitUs, fun ht => by simp [hs] at ht⟩
  | buffer m now last hs hm hq hidx =>
    rw [List.append_nil]
    exact ⟨fun _ => { ho.1 hs with }, fun ht => by simp [hs] at ht⟩
  | refuse last hs =>
    rw [List.append_nil]
    exact ⟨fun _ => { ho.1 hs with }, fun ht => by simp [hs] at ht⟩
  | late m last hs hq hidx =>
    rw [List.append_nil]
    exact ⟨fun _ => { ho.1 hs with }, fun ht => by simp [hs] at ht⟩
  | close hs hp =>
    exact ⟨fun ht => by simp at ht, fun _ =>
      ⟨l, _, rfl, { ho.1 hs with }, (ho.1 hs).terminalFor k⟩⟩

/-- A slot in mid-life keeps its accounts over a whole trace. -/
theorem trace_ordered_append {s t : PohSlot} {l es : List OrderedEvent}
    (hP : ∀ m, P m → Indexable m) (h : Trace (Move P Q k) s es t) (hb : Buffered P s)
    (ho : Ordered s l) : Ordered t (l ++ es) := by
  refine (h.rule (fun t os => Buffered P t ∧ Ordered t (l ++ os)) ⟨hb, by simpa using ho⟩
    fun _ _ _ _ ⟨hb, ho⟩ hm => ⟨hm.buffered hb, ?_⟩).2
  rw [← List.append_assoc]
  exact hm.ordered hP hb ho

theorem trace_ordered {s t : PohSlot} {es : List OrderedEvent} (hP : ∀ m, P m → Indexable m)
    (h : Trace (Move P Q k) s es t) (hb : Buffered P s) (ho : Ordered s []) : Ordered t es :=
  trace_ordered_append hP h hb ho

/-! ## The states inside a call -/

/-- The states slot `k` passes through while an input is handled, loop head by
loop head. `flush` is the flush of phase B, and of the shutdown, which sweeps first. -/
inductive During (cfg : Config) (k : ℕ) (s : PohSlot) : Input → PohSlot → Prop
  | start (i) : During cfg k s i s
  | drain (m now t) (hs : s.sealed = false) (hidx : m.observation.entryIndex = s.nextExpectedIdx)
      (ht : (drainConsecutivePending now).Visits (emitNext (touch s now) m now false 0).1 t) :
      During cfg k s (.arrival m now) t
  | gaps (now t) (hs : s.sealed = false) (ht : (sweepGaps cfg k now).Visits s t) :
      During cfg k s (.sweep now) t
  | flush (now e t) (hs : s.sealed = false)
      (he : ((sweepGaps cfg k now).exec s).1.pending.lastKeyValue = some e)
      (ht : (flushPending cfg k now e.1).Visits ((sweepGaps cfg k now).exec s).1 t) :
      During cfg k s (.sweep now) t

theorem opened_of_visits (cfg : Config) (k : ℕ) (now : Instant) {L : WhileLoop PohSlot Output}
    (hL : ∀ s r, L.body s = some r → DrainIteration cfg k now s r) {s t : PohSlot}
    (hs : Opened P s) (ht : L.Visits s t) : Opened P t :=
  L.visits_rule (Opened P) hs (fun u v os hu hb => ((hL u (v, os) hb).opened hu).1) ht

/-- Inside every call the buffer stays at or beyond the expected index. -/
theorem During.atLeastNext {cfg : Config} {s t : PohSlot} {i : Input} (h : During cfg k s i t)
    (hs : Resting P s) : AtLeastNext t := by
  cases h with
  | start => exact hs.beyondNext.atLeastNext
  | drain m now _ hu hidx ht =>
    have ho : Opened (fun _ => True) (emitted s s.pending m now) :=
      ⟨hu, fun e he => ⟨trivial, (hs.buffered e he).2⟩, atLeastNext_of_beyond hs.beyondNext rfl⟩
    exact (opened_of_visits cfg k now
      (fun _ _ => drainConsecutivePending_iteration) ho ht).atLeastNext
  | gaps now _ hu ht =>
    exact (opened_of_visits cfg k now (fun _ _ => sweepGaps_iteration) (hs.opened hu) ht).atLeastNext
  | flush now e _ hu he ht =>
    have ho := (exec_trace (Q := fun _ _ => True) (k := k) cfg now
      (L := sweepGaps cfg k now) (fun _ _ => sweepGaps_iteration) (hs.opened hu)).2.1
    exact (opened_of_visits cfg k now (fun _ _ => flushPending_iteration) ho ht).atLeastNext

/-! ## The flush of the buffer -/

/-- Every entry buffered in `s` is emitted by `es`. -/
def EmitsBuffered (s : PohSlot) (es : List OrderedEvent) : Prop :=
  ∀ e ∈ s.pending.entries, ∃ x ∈ entriesIn es, x.observation = e.2.merged.observation

theorem DrainIteration.emits {cfg : Config} {now : Instant} {s : PohSlot}
    {r : PohSlot × List Output} (h : DrainIteration cfg k now s r) {e : U32 × PendingEntry}
    (he : e ∈ s.pending.entries) :
    e ∈ r.1.pending.entries ∨
      ∃ x ∈ entriesIn (Effect.sent r.2), x.observation = e.2.merged.observation := by
  obtain ⟨f, hf, ⟨-, rfl⟩ | ⟨-, rfl⟩⟩ := h
  · rw [SortedMap.entries_of_firstKeyValue hf] at he
    rcases List.mem_cons.mp he with rfl | he
    · exact Or.inr ⟨_, List.mem_singleton.mpr rfl, rfl⟩
    · exact Or.inl he
  · exact Or.inl he

theorem sealSlot_emitsBuffered {cfg : Config} {now : Instant} {s : PohSlot} (hs : Opened P s) :
    EmitsBuffered s (Effect.sent (sealSlot cfg s k now).2) := by
  intro e he
  rw [sent_sealSlot]
  cases hlast : s.pending.lastKeyValue with
  | none => simp [SortedMap.lastKeyValue_eq_none.mp hlast] at he
  | some last =>
    have hnil := pending_nil_flushPending cfg k now
      (SortedMap.le_lastKeyValue hlast) hs
    have hemit := (flushPending cfg k now last.1).exec_rule (s := s)
      (fun t os => e ∈ t.pending.entries ∨
        ∃ x ∈ entriesIn (Effect.sent os), x.observation = e.2.merged.observation)
      (Or.inl he) (by
        intro t os u es ht hb
        rw [Effect.sent_append, entriesIn_append]
        rcases ht with ht | ⟨x, hx, hobs⟩
        · rcases (flushPending_iteration hb).emits ht with hu | ⟨x, hx, hobs⟩
          · exact Or.inl hu
          · exact Or.inr ⟨x, List.mem_append_right _ hx, hobs⟩
        · exact Or.inr ⟨x, List.mem_append_left _ hx, hobs⟩)
    rcases hemit with hmem | ⟨x, hx, hobs⟩
    · simp [hnil] at hmem
    · refine ⟨x, ?_, hobs⟩
      rw [entriesIn_append]
      exact List.mem_append_left _ (by simpa using hx)

/-! ## Whole runs -/

/-- A complete lifetime: numbered entries and gaps, then the terminal event. -/
def OrderedLifetime (l : List OrderedEvent) : Prop :=
  ∃ body term, l = body ++ [term] ∧ Numbered body.length body ∧
    EverySplit UncertainAfterMissing body ∧ TerminalFor body term

theorem EndedLife.orderedLifetime {l : List OrderedEvent} (hP : ∀ m, P m → Indexable m)
    (h : EndedLife P Q k l) : OrderedLifetime l := by
  obtain ⟨s, hl, hsealed⟩ := h
  have ho : Ordered s l := trace_ordered (fun m hm => hP m hm.2) hl
    (buffered_of_pending_nil rfl) ⟨fun _ => accounts_new, fun h => by simp at h⟩
  obtain ⟨body, term, rfl, ha, ht⟩ := ho.2 hsealed
  refine ⟨body, term, rfl, ?_, ha.uncertain, ht⟩
  rw [ha.numbered.length]
  exact ha.numbered

theorem meets_indexable (cfg : Config) {is : List Input}
    (hidx : ∀ m t, Input.arrival m t ∈ is → Indexable m) :
    (machine cfg).Along (Meets Indexable fun _ _ => True) {} is := by
  intro pre i post his
  cases i with
  | arrival m t => exact ⟨hidx m t (by simp [his]), fun _ => trivial⟩
  | sweep t => trivial

/-- For every run whose indices stay below `u32::MAX`, and every slot: each
lifetime is numbered, flagged and counted; the buffer never falls behind; and
sealing emits what is buffered. -/
theorem lifetimes_ordered (cfg : Config) (is : List Input) (now : Instant)
    (hidx : ∀ m t, Input.arrival m t ∈ is → Indexable m) (k : ℕ) :
    (lifetimes cfg k is now).reverse.flatten = eventsOf k (runLoop cfg is now) ∧
      (∀ l ∈ lifetimes cfg k is now, OrderedLifetime l) ∧
      ∀ pre post, is = pre ++ post →
        let s := (((machine cfg).run {} pre).1.slots.get? k).getD {}
        (∀ i t, During cfg k s i t → AtLeastNext t) ∧
          ∀ now', s.sealed = false →
            let a := ((sweepGaps cfg k now').exec s).1
            EmitsBuffered a (Effect.sent (sealSlot cfg a k now').2) := by
  have hin := meets_indexable cfg hidx
  obtain ⟨hflat, hended⟩ := lifetimes_spec hin k now
  refine ⟨hflat, fun l hl => (hended l hl).orderedLifetime fun _ hm => hm, ?_⟩
  intro pre post his s
  have hs : Resting (Own Indexable k) s :=
    resting_run (EverySplit.of_append (l := pre) (m := post) (by rw [← his]; exact hin)) k
  refine ⟨fun i t ht => ht.atLeastNext hs, ?_⟩
  intro now' hu a
  have ha : Opened (Own Indexable k) a :=
    (exec_trace (Q := fun _ _ => True) cfg now' (L := sweepGaps cfg k now')
      (fun _ _ => sweepGaps_iteration) (hs.opened hu)).2.1
  exact sealSlot_emitsBuffered ha

theorem lifetimes_ordered_gap :
    let is := [.arrival (sampleEntry 7 1 0 11) 0, .sweep 200000000,
      .arrival (sampleEntry 7 0 3 10) 210000000]
    (lifetimes defaultConfig 7 is 300000000).reverse.flatten =
        eventsOf 7 (runLoop defaultConfig is 300000000) ∧
      (∀ l ∈ lifetimes defaultConfig 7 is 300000000, OrderedLifetime l) ∧
      ∀ pre post, is = pre ++ post →
        let s := (((machine defaultConfig).run {} pre).1.slots.get? 7).getD {}
        (∀ i t, During defaultConfig 7 s i t → AtLeastNext t) ∧
          ∀ now', s.sealed = false →
            let a := ((sweepGaps defaultConfig 7 now').exec s).1
            EmitsBuffered a (Effect.sent (sealSlot defaultConfig a 7 now').2) :=
  lifetimes_ordered defaultConfig _ 300000000 (by
    intro m t hm
    simp only [List.mem_cons, Input.arrival.injEq, reduceCtorEq, List.not_mem_nil, or_false,
      false_or] at hm
    rcases hm with ⟨rfl, -⟩ | ⟨rfl, -⟩ <;> decide) 7

end SolanaBench.TickTrigger.PohSupervisor
