import SolanaBench.TickTrigger.HashPipeline

/-! Whether the hash that a next nonce is computed from is the last one of its slot. The
cache is written in the order of emission, so everything rests on the supervisor: it must
be done with a slot before it emits an entry of a later one. -/
namespace SolanaBench.TickTrigger.HashPipeline

open LocalCompute
open PohSupervisor
open TriggerEngine (MatchEvent Schedule handleEvent sigMatch recordHash)

/-! ## The cache -/

theorem get?_of_recordEntry {c : SlotHashCache} {slot k : ℕ} {h v : Hash}
    (hv : (c.recordEntry slot h).inner.get? k = some v) :
    (if k = slot then some h else c.inner.get? k) = some v := by
  have hold : (c.inner.insert slot h).get? k = some v := by
    unfold SlotHashCache.recordEntry at hv
    dsimp only at hv
    split at hv
    · split_ifs at hv
      · exact SortedMap.get?_of_dropWhile hv
      · exact hv
    · exact hv
  rwa [SortedMap.get?_insert] at hold

/-- A look-back answers with the hash cached for an earlier slot. -/
theorem lookBack_spec {compute : Hash → Hash} {inner : SortedMap ℕ Hash} {landedSlot : ℕ}
    {backs : List ℕ} (hbacks : ∀ back ∈ backs, 0 < back) {r : ℕ × Hash × Hash}
    (h : SlotHashCache.lookBack compute inner landedSlot backs = some r) :
    r.1 < landedSlot ∧ inner.get? r.1 = some r.2.1 := by
  induction backs with
  | nil => simp [SlotHashCache.lookBack] at h
  | cons back backs ih =>
    have hback := hbacks back List.mem_cons_self
    unfold SlotHashCache.lookBack at h
    split_ifs at h with hlt
    split at h
    · next v hv =>
      rw [← Option.some.inj h]
      exact ⟨by omega, hv⟩
    · exact ih (fun b hb => hbacks b (List.mem_cons_of_mem back hb)) h

theorem mem_usesIn {cfg : Recorder.RecorderConfig} {m : MatchEvent} {cache : SlotHashCache}
    {os : List Recorder.Output} {u : Use} (hu : u ∈ usesIn cfg m cache os) :
    u.sourceSlot < m.observedSlot ∧ cache.inner.get? u.sourceSlot = some u.hash := by
  obtain ⟨x, -, hx⟩ := List.mem_filterMap.mp hu
  split at hx
  · obtain ⟨r, hr, rfl⟩ := Option.map_eq_some_iff.mp hx
    exact lookBack_spec (fun back hb => by simp at hb; omega) hr
  · simp at hx

/-! ## The engine -/

/-- What the engine writes to the cache. -/
def writes : OrderedEvent → Option (ℕ × Hash)
  | .entry e => some (e.slot, e.observation.entryHash)
  | x => x.closing?

theorem cache_handleEvent (sched : Schedule) (st : TriggerEngine.State) (x : OrderedEvent)
    (now : Instant) :
    (handleEvent sched st x now).1.nonceSlotHashCache =
      match writes x with
      | some w => st.nonceSlotHashCache.map fun c => c.recordEntry w.1 w.2
      | none => st.nonceSlotHashCache := by
  cases x with
  | entry e =>
    have hcheck : (TriggerEngine.scheduleCheck sched (recordHash st e.slot e.observation.entryHash)
        e now).1.nonceSlotHashCache =
          (recordHash st e.slot e.observation.entryHash).nonceSlotHashCache := by
      unfold TriggerEngine.scheduleCheck
      dsimp only
      split_ifs <;> rfl
    simp only [handleEvent, TriggerEngine.handleEntry, TriggerEngine.compact]
    split_ifs
    · exact hcheck
    · exact hcheck
  | missing m => rfl
  | slotComplete c => rfl
  | slotIncomplete c => rfl

@[simp] theorem matchesIn_nil : matchesIn [] = [] := rfl

@[simp] theorem matchesIn_append (os ps : List TriggerEngine.Output) :
    matchesIn (os ++ ps) = matchesIn os ++ matchesIn ps := by
  simp [matchesIn]

@[simp] theorem matchesIn_fetchAdd (c : TriggerEngine.Counter) (n : ℕ)
    (os : List TriggerEngine.Output) : matchesIn (.fetchAdd c n :: os) = matchesIn os := rfl

@[simp] theorem matchesIn_matched (m : MatchEvent) (os : List TriggerEngine.Output) :
    matchesIn (.send (.matched m) :: os) = m :: matchesIn os := rfl

theorem mem_matchesIn_sigMatch {e : OrderedEntry} {now : Instant} {sigs : List Signature}
    {pending : Finset Signature} {m : MatchEvent}
    (hm : m ∈ matchesIn (sigMatch e now sigs pending).2) : m.observedSlot = e.slot := by
  induction sigs generalizing pending with
  | nil => simp [sigMatch] at hm
  | cons sig sigs ih =>
    unfold sigMatch at hm
    split_ifs at hm
    · simp only [matchesIn_fetchAdd, matchesIn_matched, List.mem_cons] at hm
      rcases hm with rfl | hm
      · rfl
      · exact ih hm
    · exact ih hm

theorem matchesIn_scheduleCheck (sched : Schedule) (st : TriggerEngine.State) (e : OrderedEntry)
    (now : Instant) : matchesIn (TriggerEngine.scheduleCheck sched st e now).2 = [] := by
  unfold TriggerEngine.scheduleCheck
  dsimp only
  split_ifs
  · rfl
  · unfold TriggerEngine.fire
    cases e.tickUncertain <;> rfl
  · rfl

/-- A match carries the slot of the entry it was found in. -/
theorem mem_matchesIn_handleEvent {sched : Schedule} {st : TriggerEngine.State} {x : OrderedEvent}
    {now : Instant} {m : MatchEvent} (hm : m ∈ matchesIn (handleEvent sched st x now).2) :
    ∃ e, x = .entry e ∧ m.observedSlot = e.slot := by
  cases x with
  | entry e =>
    simp only [handleEvent, TriggerEngine.handleEntry, List.cons_append, matchesIn_fetchAdd,
      matchesIn_append, matchesIn_scheduleCheck, List.nil_append] at hm
    exact ⟨e, rfl, mem_matchesIn_sigMatch hm⟩
  | missing m => simp [handleEvent] at hm
  | slotComplete c => simp [handleEvent] at hm
  | slotIncomplete c => simp [handleEvent] at hm

/-! ## The pipeline -/

/-- What was emitted and did not get lost, from the engine back to the supervisor. -/
def State.inOrder (st : State) : List OrderedEvent := st.processed ++ st.orderedQueue ++ st.sending

/-- Entries leave the supervisor in one sequence and in this order reach the cache, which
then holds the last hash of every slot it has; no used hash changes any more. -/
structure Inv (st : State) : Prop where
  sequenced : Sequenced st.supervisor.slots st.emitted
  sublist : st.inOrder.Sublist st.emitted
  entries : entriesIn st.inOrder = entriesIn st.emitted
  cached : ∀ k v, st.cache.inner.get? k = some v → lastHash k st.processed = some v
  matched : ∀ m ∈ st.matchQueue, ∃ e ∈ entriesIn st.processed, e.slot = m.observedSlot
  used : ∀ u ∈ st.uses, lastHash u.sourceSlot st.emitted = some u.hash ∧
    ∃ e ∈ entriesIn st.emitted, u.sourceSlot < e.slot

theorem inv_initial (cfg : Config) : Inv (initial cfg) where
  sequenced := sequenced_init
  sublist := List.Sublist.refl []
  entries := rfl
  cached k v hv := by
    have hnone : (none : Option Hash) = some v := hv
    simp at hnone
  matched m hm := absurd hm List.not_mem_nil
  used u hu := absurd hu List.not_mem_nil

variable {cfg : Config} {st : State}

/-- Used hashes are settled: what the supervisor still emits comes later. -/
theorem Inv.called (h : Inv st) (hidle : st.sending = [])
    {r : PohSupervisor.State × List PohSupervisor.Output}
    (hr : Sequenced r.1.slots (st.emitted ++ Effect.sent r.2)) : Inv (st.called r) where
  sequenced := hr
  sublist := by
    have hsub := h.sublist.append_right (Effect.sent r.2)
    simpa [State.inOrder, State.called, hidle] using hsub
  entries := by
    have heq := congrArg (· ++ entriesIn (Effect.sent r.2)) h.entries
    simpa [State.inOrder, State.called, hidle] using heq
  cached := h.cached
  matched := h.matched
  used u hu := by
    obtain ⟨hlast, e, he, hlt⟩ := h.used u hu
    refine ⟨?_, e, ?_, hlt⟩
    · have hsettled := hr.log.lastHash_settled he hlt
      exact hsettled.trans hlast
    · have hmem : e ∈ entriesIn (st.emitted ++ Effect.sent r.2) := by
        rw [entriesIn_append]
        exact List.mem_append_left _ he
      exact hmem

theorem Inv.log (h : Inv st) : Sequence st.inOrder := h.sequenced.log.thinned h.sublist h.entries

/-- A full channel loses no entry. -/
theorem Inv.trySend (h : Inv st) (hroom : InTurn cfg st .trySend) : Inv (trySend cfg st) := by
  unfold HashPipeline.trySend
  cases hs : st.sending with
  | nil => exact h
  | cons x rest =>
    have hsub := h.sublist
    have heq := h.entries
    unfold State.inOrder at hsub heq
    rw [hs] at hsub heq
    by_cases hlen : st.orderedQueue.length < cfg.channelCapacity
    · refine { h with sublist := ?_, entries := ?_ }
      · simpa [State.inOrder, hlen] using hsub
      · simpa [State.inOrder, hlen] using heq
    · have hx : x.entry? = none := by
        by_contra hne
        exact hlen (hroom x (by simp [hs]) hne)
      have hrest : (st.processed ++ st.orderedQueue ++ rest).Sublist
          (st.processed ++ st.orderedQueue ++ x :: rest) := (List.sublist_cons_self x rest).append_left _
      refine { h with sublist := ?_, entries := ?_ }
      · simpa [State.inOrder, hlen] using hrest.trans hsub
      · rw [← heq]
        simp [State.inOrder, hlen, entriesIn, hx]

/-- A cached hash was written by `x`, or `x` left it alone. -/
theorem get?_cache_handleEvent {sched : Schedule} {x : OrderedEvent} {now : Instant} {k : ℕ} {v : Hash}
    (hv : ({ st with engine := (handleEvent sched st.engine x now).1 } : State).cache.inner.get? k =
      some v) :
    writes x = some (k, v) ∨ (∀ w, writes x ≠ some (k, w)) ∧ st.cache.inner.get? k = some v := by
  unfold State.cache at hv ⊢
  dsimp only at hv
  rw [cache_handleEvent] at hv
  cases hw : writes x with
  | none => exact Or.inr ⟨fun w => by simp, by simpa [hw] using hv⟩
  | some w =>
    rw [hw] at hv
    cases hc : st.engine.nonceSlotHashCache with
    | none => simp [hc] at hv
    | some c =>
      have hrec := get?_of_recordEntry (c := c) (by simpa [hc] using hv)
      split_ifs at hrec with hk
      · left
        rw [hk, ← Option.some.inj hrec]
      · refine Or.inr ⟨fun u hu => hk ?_, hrec⟩
        rw [Option.some.inj hu]

/-- Writing `x` makes its hash the last one of its slot, or confirms it. -/
theorem lastHash_snoc_of_writes {l es : List OrderedEvent} {x : OrderedEvent} {k : ℕ} {v : Hash}
    (hl : Sequence (l ++ x :: es)) (hw : writes x = some (k, v)) :
    lastHash k (l ++ [x]) = some v := by
  have hclosing : x.closing? = some (k, v) → lastHash k l = some v := fun hx =>
    hl.closings l x es rfl (k, v) hx
  cases x with
  | entry e =>
    have hkv : (e.slot, e.observation.entryHash) = (k, v) := Option.some.inj hw
    rw [lastHash_snoc_entry, if_pos (congrArg Prod.fst hkv)]
    exact congrArg some (congrArg Prod.snd hkv)
  | missing m => simp [writes, OrderedEvent.closing?] at hw
  | slotComplete c => exact (lastHash_snoc_of_entry?_none rfl).trans (hclosing hw)
  | slotIncomplete c => exact (lastHash_snoc_of_entry?_none rfl).trans (hclosing hw)

/-- What `x` does not write keeps its last hash. -/
theorem lastHash_snoc_of_not_writes {l : List OrderedEvent} {x : OrderedEvent} {k : ℕ}
    (hw : ∀ v, writes x ≠ some (k, v)) : lastHash k (l ++ [x]) = lastHash k l := by
  cases x with
  | entry e =>
    have hne : e.slot ≠ k := fun hk => hw e.observation.entryHash (by simp [writes, hk])
    rw [lastHash_snoc_entry, if_neg hne]
  | missing m => exact lastHash_snoc_of_entry?_none rfl
  | slotComplete c => exact lastHash_snoc_of_entry?_none rfl
  | slotIncomplete c => exact lastHash_snoc_of_entry?_none rfl

/-- The engine keeps the cache at the last hashes of what it has processed. -/
theorem Inv.engine (h : Inv st) (sched : Schedule) (now : Instant) : Inv (engine st sched now) := by
  unfold HashPipeline.engine
  cases hq : st.orderedQueue with
  | nil => exact h
  | cons x rest =>
    have horder : st.inOrder = st.processed ++ x :: (rest ++ st.sending) := by
      simp [State.inOrder, hq]
    have hlog := h.log
    have hsub := h.sublist
    have heq := h.entries
    rw [horder] at hlog hsub heq
    refine ⟨h.sequenced, by simpa [State.inOrder] using hsub, by simpa [State.inOrder] using heq,
      fun k v hv => ?_, fun m hm => ?_, h.used⟩
    · rcases get?_cache_handleEvent hv with hw | ⟨hother, hold⟩
      · exact lastHash_snoc_of_writes hlog hw
      · rw [lastHash_snoc_of_not_writes hother]
        exact h.cached k v hold
    · rcases List.mem_append.mp hm with hm | hm
      · obtain ⟨e, he, hslot⟩ := h.matched m hm
        exact ⟨e, by simp [he], hslot⟩
      · obtain ⟨e, rfl, hslot⟩ := mem_matchesIn_handleEvent hm
        exact ⟨e, by simp, hslot.symm⟩

/-- A hash is used when an entry of a later slot has been processed, so it is settled. -/
theorem Inv.handleMatch (h : Inv st) (now : Instant) :
    Inv (HashPipeline.matched cfg st now) := by
  unfold HashPipeline.matched
  cases hq : st.matchQueue with
  | nil => exact h
  | cons m rest =>
    have hmatched := h.matched
    rw [hq] at hmatched
    refine { h with matched := fun m' hm' => hmatched m' (List.mem_cons_of_mem m hm'), used := ?_ }
    intro u hu
    rcases List.mem_append.mp hu with hu | hu
    · exact h.used u hu
    · obtain ⟨hlt, hcached⟩ := mem_usesIn hu
      obtain ⟨e, he, hslot⟩ := hmatched m List.mem_cons_self
      have hlater : u.sourceSlot < e.slot := by omega
      have horder : st.inOrder = st.processed ++ (st.orderedQueue ++ st.sending) :=
        List.append_assoc ..
      have hlog := h.log
      rw [horder] at hlog
      refine ⟨?_, e, ?_, hlater⟩
      · calc lastHash u.sourceSlot st.emitted
            = lastHash u.sourceSlot st.inOrder := (lastHash_congr h.entries _).symm
          _ = lastHash u.sourceSlot st.processed := by
            rw [horder]
            exact hlog.lastHash_settled he hlater
          _ = some u.hash := h.cached _ _ hcached
      · rw [← h.entries, horder, entriesIn_append]
        exact List.mem_append_left _ he

theorem Inv.next (h : Inv st) {i : Input} (hi : InTurn cfg st i) : Inv (next cfg st i) := by
  cases i with
  | supervise i =>
    unfold HashPipeline.next
    split_ifs with hidle
    · have hturn := hi hidle
      cases i with
      | arrival m now => exact h.called hidle.1 (h.sequenced.process hturn)
      | sweep now => exact h.called hidle.1 (h.sequenced.sweep hturn fun _ hlag => hlag)
    · exact h
  | shutdown now =>
    unfold HashPipeline.next
    split_ifs with hidle
    · have hcalled := h.called hidle.1 (h.sequenced.shutdown (hi hidle))
      exact { hcalled with }
    · exact h
  | trySend => exact h.trySend hi
  | engine sched now => exact h.engine sched now
  | pend sig => exact { h with }
  | matchFull => exact { h with matched := fun m hm => h.matched m (List.mem_of_mem_tail hm) }
  | matched now => exact h.handleMatch now
  | register reg => exact { h with }
  | outcome s => exact { h with }
  | deadlines now => exact { h with }

theorem Inv.hashesFresh (h : Inv st) : HashesFresh st where
  fresh u hu := h.sequenced.log.highest (h.used u hu).1
  settled pre x post hpre e he f hf hlt := by
    obtain rfl : x = .entry e := by
      cases x <;> simp [OrderedEvent.entry?] at he
      rw [he]
    have hlog := h.log.ascending
    have horder : st.inOrder = pre ++ .entry e :: (post ++ st.orderedQueue ++ st.sending) := by
      simp [State.inOrder, hpre]
    rw [← h.entries] at hf
    rw [horder, entriesIn_append] at hf hlog
    rcases List.mem_append.mp hf with hf | hf
    · exact mem_entriesIn.mp hf
    · -- an entry after `e` is of its slot or a later one
      have hrest : entriesIn (.entry e :: (post ++ st.orderedQueue ++ st.sending)) =
          e :: entriesIn (post ++ st.orderedQueue ++ st.sending) := rfl
      rw [hrest] at hf hlog
      rcases List.mem_cons.mp hf with rfl | hf
      · omega
      · have hafter := (List.pairwise_cons.mp (List.pairwise_append.mp hlog).2.1).1 f hf
        rcases hafter with hgt | ⟨heq, -⟩
        · omega
        · omega

/-- In every run whose steps are in turn, a next nonce is computed from the hash of the
highest entry its source slot ever has, and slots are processed one after the other. -/
theorem hashesFresh_of_inTurn (cfg : Config) (is : List Input)
    (h : (machine cfg).Along (InTurn cfg) (initial cfg) is) :
    HashesFresh ((machine cfg).run (initial cfg) is).1 := by
  have hinv : Inv ((machine cfg).run (initial cfg) is).1 :=
    EventMachine.along_rule (InTurn cfg) (fun _ st _ => Inv st) (inv_initial cfg)
      (fun _ st _ i hi hst => hst.next hi) h
  exact hinv.hashesFresh

/-! Slot 1 with two or three entries, and an attempt whose signature is in slot 2. -/

/-- The window of `phase3_run`; any injective function serves for the hash. -/
def sampleConfig : Config where
  supervisor := defaultConfig
  recorder := ⟨"run", 0, 30000000000, true, fun h => h + 1⟩
  window := 256
  channelCapacity := 8192

def sampleAttempt : Recorder.RegisterEvent where
  triggerId := 517
  senderId := 0
  senderName := "sender"
  endpointUrl := "http://localhost"
  protocol := "rpc"
  signature := 5
  slot := 2
  tick := 5
  triggerObservedAt := 0
  preparedAt := 0
  blockhash := 7
  nonceId := some 0

def sampleLanding : MergedEntry :=
  { sampleEntry 2 0 1 20 with
    observation := { (sampleEntry 2 0 1 20).observation with signatures := [5] } }

def sampleRun : List Input :=
  [.register sampleAttempt, .pend 5,
    .supervise (.arrival (sampleEntry 1 0 1 10) 0), .trySend,
    .supervise (.arrival (sampleEntry 1 1 1 11) 1), .trySend,
    .supervise (.arrival sampleLanding 2), .trySend,
    .engine ∅ 3, .engine ∅ 4, .engine ∅ 5, .matched 6]

theorem hashesFresh_of_inTurn_sample :
    ((machine sampleConfig).run (initial sampleConfig) sampleRun).1.uses = [⟨2, 1, 11⟩] ∧
      HashesFresh ((machine sampleConfig).run (initial sampleConfig) sampleRun).1 :=
  ⟨by decide +kernel, hashesFresh_of_inTurn sampleConfig sampleRun (by decide +kernel)⟩

/-- Entry 2 of slot 1 waits behind a gap while slot 2 is emitted and matched: the nonce is
computed from entry 0, and entries 1 and 2 come out after it. -/
theorem stale_hash_used :
    ¬∀ (cfg : Config) (is : List Input),
      HashesFresh ((machine cfg).run (initial cfg) is).1 := by
  intro h
  have hfresh := (h sampleConfig
    [.register sampleAttempt, .pend 5,
      .supervise (.arrival (sampleEntry 1 0 1 10) 0), .trySend,
      .supervise (.arrival (sampleEntry 1 2 1 12) 1),
      .supervise (.arrival sampleLanding 2), .trySend,
      .engine ∅ 3, .engine ∅ 4, .matched 5,
      .supervise (.arrival (sampleEntry 1 1 1 11) 6)]).fresh
  revert hfresh
  decide +kernel

end SolanaBench.TickTrigger.HashPipeline
