import Mathlib.Data.List.Nodup
import SolanaBench.TickTrigger.PohSequence
import SolanaBench.TickTrigger.PohTicks
import SolanaBench.TickTrigger.TriggerPipeline

/-! Which triggers the chain fires. Both feeds deliver copies of the entries of one ledger,
in any order and interleaving; a scheduled tick fires once, and as soon as the entries up to
it went through. -/
namespace SolanaBench.TickTrigger

/-! ## What the merger passes on -/

namespace Merger

variable {is : List Arrival}

theorem emitted_sublist (is : List Arrival) : (emitted is).Sublist (is.map Arrival.merged) := by
  induction is using List.reverseRecOn with
  | nil => exact List.Sublist.refl _
  | append_singleton is i ih =>
    rw [emitted_snoc, List.map_append]
    refine ih.append ?_
    split_ifs
    · exact List.Sublist.refl _
    · exact List.nil_sublist _

/-- A key in the map was emitted. -/
theorem emitted_of_mem (is : List Arrival) (key : Key) (h : key ∈ (machine.run {} is).1.state) :
    ∃ e ∈ emitted is, e.key = key := by
  induction is using List.reverseRecOn with
  | nil => exact absurd h (AList.notMem_empty _)
  | append_singleton is i ih =>
    rw [emitted_snoc]
    rw [EventMachine.run_snoc_fst] at h
    by_cases hold : key ∈ (machine.run {} is).1.state
    · obtain ⟨e, he, hkey⟩ := ih hold
      exact ⟨e, List.mem_append_left _ he, hkey⟩
    · have hkey : key = i.key := by
        have hmatch : key ∈ (matchEntry (machine.run {} is).1 i.1 i.2).1.state := by
          rcases lookup_step (indexed_run is) i key with heq | ⟨hnone, -⟩
          · rw [← AList.lookup_isSome, ← heq]
            exact AList.lookup_isSome.mpr h
          · exact absurd h (AList.lookup_eq_none.mp hnone)
        rcases matchEntry_cases (machine.run {} is).1 i with
          ⟨-, heq⟩ | ⟨_, _, _, hlookup, heq⟩ | ⟨-, heq⟩
        · rw [heq] at hmatch
          exact ((AList.mem_insert _).mp hmatch).resolve_right hold
        · rw [heq] at hmatch
          exact ((AList.mem_insert _).mp hmatch).resolve_right hold
        · rw [heq] at hmatch
          exact absurd hmatch hold
      have hfirst : Unseen is i := by
        rw [Unseen, ← hkey]
        exact hold
      refine ⟨i.merged, List.mem_append_right _ ?_, hkey.symm⟩
      rw [if_pos hfirst]
      exact List.mem_singleton_self _

/-- Every arrival passes on a copy of its entry, its own or an earlier one. -/
theorem exists_emitted_key {i : Arrival} (h : i ∈ is) : ∃ e ∈ emitted is, e.key = i.key := by
  obtain ⟨pre, post, rfl⟩ := List.append_of_mem h
  have hkey := emitted_of_mem (pre ++ [i]) i.key (by
    rw [EventMachine.run_snoc_fst]
    exact key_mem_step (indexed_run pre) i)
  obtain ⟨e, he, heq⟩ := hkey
  have hsub : emitted (pre ++ [i]) ⊆ emitted (pre ++ i :: post) := by
    have hcons : pre ++ i :: post = (pre ++ [i]) ++ post := by simp
    unfold emitted
    rw [hcons, EventMachine.run_append_snd machine {} (pre ++ [i]) post, Effect.sent_append]
    exact List.subset_append_left _ _
  exact ⟨e, hsub he, heq⟩

/-- No arrival is more than a dedup window behind an earlier one. -/
def InWindow (is : List Arrival) : Prop :=
  is.Pairwise fun a b => a.1.slot ≤ b.1.slot + DEDUP_WINDOW_SLOTS

instance (is : List Arrival) : Decidable (InWindow is) :=
  inferInstanceAs (Decidable (List.Pairwise _ is))

/-- Then no entry is passed on twice. -/
theorem emitted_keys_nodup (h : InWindow is) : ((emitted is).map MergedEntry.key).Nodup := by
  induction is using List.reverseRecOn with
  | nil => exact List.nodup_nil
  | append_singleton is i ih =>
    obtain ⟨his, -, hlast⟩ := List.pairwise_append.mp h
    rw [emitted_snoc]
    split_ifs with hfirst
    · rw [List.map_append, List.map_singleton]
      refine List.nodup_append.mpr ⟨ih his, List.nodup_singleton _, fun key hkey key' hi heq => ?_⟩
      rw [List.mem_singleton.mp hi] at heq
      obtain ⟨e, he, hek⟩ := List.mem_map.mp hkey
      obtain ⟨pre, a, post, hsplit, -, rfl⟩ := (mem_emitted is e).mp he
      have hak : a.key = i.key := hek.trans heq
      -- the earlier copy's key is still in the map
      have hnear : ∀ b ∈ post, b.1.slot ≤ a.key.1 + DEDUP_WINDOW_SLOTS := by
        intro b hb
        rw [hak]
        exact hlast b (by rw [hsplit]; simp [hb]) i (List.mem_singleton_self i)
      have hin := mem_run ((indexed_run pre).step a) (key_mem_step (indexed_run pre) a) hnear
      rw [Unseen, hsplit, EventMachine.run_append_fst, EventMachine.run_cons_fst, ← hak] at hfirst
      exact hfirst hin
    · rw [List.append_nil]
      exact ih his

end Merger

/-! ## How far the supervisor has come -/

namespace PohSupervisor

def View.tick? : View → Option ℕ
  | .entry _ _ _ tickIdxInSlot _ _ => some tickIdxInSlot
  | _ => none

def ticksAmong (E : List MergedEntry) : ℕ := E.countP fun m => m.observation.txCount == 0

/-- The tick numbers of the first `j` entries. -/
def numbering (E : List MergedEntry) (j : ℕ) : List ℕ :=
  (List.range j).map fun i => min 64 (ticksAmong (E.take (i + 1)))

section Reach

variable {E A : List MergedEntry} {k j j' : ℕ} {o : Option PohSlot} {vs : List View}

theorem ticksAmong_take_succ {m : MergedEntry} (hm : E[j]? = some m) :
    ticksAmong (E.take (j + 1)) =
      ticksAmong (E.take j) + if m.observation.txCount == 0 then 1 else 0 := by
  unfold ticksAmong
  rw [List.take_add_one, hm, Option.toList_some, List.countP_append, List.countP_singleton]

theorem inOrderAt_tickIdx (E : List MergedEntry) (hj : j ≤ E.length) :
    (inOrderAt E j).1.tickIdx = min 64 (ticksAmong (E.take j)) := by
  induction j with
  | zero => rfl
  | succ j ih =>
    have hm : E[j]? = some E[j] := List.getElem?_eq_getElem (by omega)
    rw [inOrderAt_succ hm, ticksAmong_take_succ hm]
    exact tickAfter_eq_min (ih (by omega))

theorem inOrderAt_numbering (E : List MergedEntry) (hj : j ≤ E.length) :
    (inOrderAt E j).2.filterMap View.tick? = numbering E j := by
  induction j with
  | zero => rfl
  | succ j ih =>
    have hm : E[j]? = some E[j] := List.getElem?_eq_getElem (by omega)
    have htick := inOrderAt_tickIdx E hj
    rw [inOrderAt_succ hm] at htick ⊢
    rw [List.filterMap_append, ih (by omega), numbering, numbering, List.range_succ, List.map_append,
      List.map_singleton, ← htick]
    rfl

/-- The entries of the slot have left it up to one that has not arrived. -/
theorem Progress.reach (h : Progress k E A o vs) : ∃ j ≤ E.length,
    vs.filterMap View.tick? = numbering E j ∧ (∀ m ∈ E.take j, m ∈ A) ∧ Waiting E A j := by
  cases h with
  | unseen hA =>
    subst hA
    exact ⟨0, Nat.zero_le _, rfl, by simp, fun m _ => List.not_mem_nil⟩
  | active s _ j hu hA h hw =>
    refine ⟨j, h.le, ?_, h.before, hw⟩
    rw [h.views]
    exact inOrderAt_numbering E h.le
  | closed _ hA ho hall =>
    refine ⟨E.length, le_rfl, ?_, fun m hm => hall m (List.mem_of_mem_take hm), ?_⟩
    · have hrun : inOrderAt E E.length = inOrder.run {} E := by
        unfold inOrderAt
        rw [List.take_length]
      have hnumbering := inOrderAt_numbering E le_rfl
      rw [hrun] at hnumbering
      unfold inOrderViews
      dsimp only
      split_ifs with hE
      · subst hE
        rfl
      · rw [List.filterMap_append, hnumbering]
        simp [View.tick?]
    · intro m hm
      have hlt := (List.getElem?_eq_some_iff.mp hm).1
      omega

theorem reach_unique (hj : j ≤ E.length) (hj' : j' ≤ E.length)
    (hbefore : ∀ m ∈ E.take j, m ∈ A) (hbefore' : ∀ m ∈ E.take j', m ∈ A) (hw : Waiting E A j)
    (hw' : Waiting E A j') : j = j' := by
  have hle : ∀ {a b : ℕ}, b ≤ E.length → (∀ m ∈ E.take b, m ∈ A) → Waiting E A a → b ≤ a := by
    intro a b hb htake hwait
    by_contra hlt
    have hm : E[a]? = some E[a] := List.getElem?_eq_getElem (by omega)
    refine hwait _ hm (htake _ (List.mem_iff_getElem?.mpr ⟨a, ?_⟩))
    rw [List.getElem?_take_of_lt (by omega)]
    exact hm
  exact le_antisymm (hle hj hbefore hw') (hle hj' hbefore' hw)

end Reach

section Runs

variable {cfg : Config} {E : ℕ → List MergedEntry} {is : List Input} {k : ℕ}

theorem filterMap_view_tick? (es : List OrderedEvent) :
    (es.map OrderedEvent.view).filterMap View.tick? = (entriesIn es).map OrderedEntry.tickIdxInSlot := by
  induction es with
  | nil => rfl
  | cons x es ih =>
    cases x with
    | entry e => exact congrArg (e.tickIdxInSlot :: ·) ih
    | missing m => exact ih
    | slotComplete c => exact ih
    | slotIncomplete c => exact ih

/-- The entries a run has let out of slot `k` are the first `j`, numbered, and the next one
is still to come. -/
theorem reach_run (h : Feeds cfg E is) (k : ℕ) : ∃ j ≤ (E k).length,
    (entriesIn (eventsOf k (Effect.sent ((machine cfg).run {} is).2))).map
        OrderedEntry.tickIdxInSlot = numbering (E k) j ∧
      (∀ m ∈ (E k).take j, m ∈ arrivalsOf k is) ∧ Waiting (E k) (arrivalsOf k is) j := by
  obtain ⟨j, hj, hticks, hbefore, hw⟩ := (progress_run h k).reach
  rw [filterMap_view_tick?] at hticks
  exact ⟨j, hj, hticks, hbefore, hw⟩

/-- An undisturbed sweep lets no entry out. -/
theorem entriesIn_sweep {now : Instant} (h : Feeds cfg E (is ++ [.sweep now])) :
    entriesIn (Effect.sent ((machine cfg).step ((machine cfg).run {} is).1 (.sweep now)).2) = [] := by
  refine List.eq_nil_iff_forall_not_mem.mpr fun e he => ?_
  obtain ⟨j, hj, hticks, hbefore, hw⟩ := reach_run h.of_append e.slot
  obtain ⟨j', hj', hticks', hbefore', hw'⟩ := reach_run h e.slot
  rw [arrivalsOf_append, arrivalsOf_sweep, List.append_nil] at hbefore' hw'
  have hjj := reach_unique hj hj' hbefore hbefore' hw hw'
  rw [← hjj, ← hticks, EventMachine.run_snoc_snd, Effect.sent_append, eventsOf_append,
    entriesIn_append, List.map_append] at hticks'
  have hnone := List.map_eq_nil_iff.mp (List.append_right_eq_self.mp hticks')
  have hmem := mem_entriesIn_eventsOf.mpr ⟨he, rfl⟩
  rw [hnone] at hmem
  exact List.not_mem_nil hmem

/-- The entries that arrived. -/
def arrivedIn (is : List Input) : List MergedEntry := is.filterMap intake.passed?

theorem arrivalsOf_eq_filter (k : ℕ) (is : List Input) :
    arrivalsOf k is = (arrivedIn is).filter fun m => decide (m.observation.slot = k) := by
  induction is with
  | nil => rfl
  | cons i is ih =>
    cases i with
    | sweep now => exact ih
    | arrival m now =>
      have hcons : arrivedIn (.arrival m now :: is) = m :: arrivedIn is := rfl
      rw [hcons, List.filter_cons, ← ih]
      unfold arrivalsOf
      by_cases hm : m.observation.slot = k <;> simp [hm]

/-- Entries leave at the arrival of one of their slot, so they come no more out of order than
the slots arrive. -/
theorem entriesIn_pairwise {W : ℕ} (h : Feeds cfg E is)
    (hW : (arrivedIn is).Pairwise fun a b => a.observation.slot ≤ b.observation.slot + W) :
    let es := entriesIn (Effect.sent ((machine cfg).run {} is).2)
    es.Pairwise (fun a b => a.slot ≤ b.slot + W) ∧
      ∀ e ∈ es, ∃ m ∈ arrivedIn is, m.observation.slot = e.slot := by
  induction is using List.reverseRecOn with
  | nil => exact ⟨List.Pairwise.nil, fun e he => absurd he List.not_mem_nil⟩
  | append_singleton is i ih =>
    have happ : arrivedIn (is ++ [i]) = arrivedIn is ++ arrivedIn [i] := List.filterMap_append
    rw [happ] at hW ⊢
    obtain ⟨his, -, hlast⟩ := List.pairwise_append.mp hW
    obtain ⟨hpair, hslots⟩ := ih h.of_append his
    dsimp only at hpair hslots ⊢
    rw [EventMachine.run_snoc_snd, Effect.sent_append, entriesIn_append]
    cases i with
    | sweep now =>
      rw [entriesIn_sweep h, List.append_nil]
      refine ⟨hpair, fun e he => ?_⟩
      obtain ⟨m, hm, hme⟩ := hslots e he
      exact ⟨m, List.mem_append_left _ hm, hme⟩
    | arrival m now =>
      obtain ⟨hr, -⟩ := (kept_run cfg is).getD m.observation.slot
      obtain ⟨htr, -, -⟩ := processSlot_trace (Q := fun _ _ => True) (k := m.observation.slot) cfg now
        hr ⟨rfl, trivial⟩ fun _ => trivial
      have hnew : ∀ e ∈ entriesIn (Effect.sent ((machine cfg).step ((machine cfg).run {} is).1
          (.arrival m now)).2), e.slot = m.observation.slot :=
        fun e he => trace_slot htr _ (mem_entriesIn.mp he)
      refine ⟨List.pairwise_append.mpr ⟨hpair, ?_, fun a ha b hb => ?_⟩, fun e he => ?_⟩
      · refine List.pairwise_of_forall_mem_list fun a ha b hb => ?_
        rw [hnew a ha, hnew b hb]
        exact Nat.le_add_right _ _
      · obtain ⟨m', hm', hslot⟩ := hslots a ha
        rw [← hslot, hnew b hb]
        exact hlast m' hm' m (List.mem_singleton_self m)
      · rcases List.mem_append.mp he with he | he
        · obtain ⟨m', hm', hslot⟩ := hslots e he
          exact ⟨m', List.mem_append_left _ hm', hslot⟩
        · exact ⟨m, List.mem_append_right _ (List.mem_singleton_self m), (hnew e he).symm⟩

end Runs

end PohSupervisor

/-! ## What the engine fires on entries that come nearly in order -/

namespace TriggerEngine

open PohSupervisor (OrderedEntry entriesIn mem_entriesIn)

/-- The entries among the events the engine was handed. -/
def entriesHandled (is : List Input) : List OrderedEntry :=
  entriesIn (is.filterMap intake.passed?)

variable {key : ℕ × ℕ} {is : List Input}

theorem mem_entriesHandled {e : OrderedEntry} :
    e ∈ entriesHandled is ↔ ∃ now, .ordered (.entry e) now ∈ is := by
  unfold entriesHandled
  rw [mem_entriesIn, List.mem_filterMap]
  constructor
  · rintro ⟨i, hi, he⟩
    cases i with
    | register sig => cases he
    | ordered event now =>
      obtain rfl : event = .entry e := Option.some.inj he
      exact ⟨now, hi⟩
  · rintro ⟨now, hi⟩
    exact ⟨_, hi, rfl⟩

theorem someSplit_ticks_iff : SomeSplit (Ticks key) is ↔
    ∃ e ∈ entriesHandled is, (e.slot, e.tickIdxInSlot) = key := by
  constructor
  · rintro ⟨pre, i, post, rfl, e, now, rfl, hkey⟩
    exact ⟨e, mem_entriesHandled.mpr ⟨now, by simp⟩, hkey⟩
  · rintro ⟨e, he, hkey⟩
    obtain ⟨now, hi⟩ := mem_entriesHandled.mp he
    obtain ⟨pre, post, rfl⟩ := List.append_of_mem hi
    exact ⟨pre, _, post, rfl, e, now, rfl, hkey⟩

/-- A compaction drops the slots 256 behind, and no entry comes as late as that. -/
theorem neverRefired_of_pairwise {W : ℕ} (hW : W ≤ 256)
    (h : (entriesHandled is).Pairwise fun a b => a.slot ≤ b.slot + W) : NeverRefired key is := by
  rintro pre i post rfl ⟨e, now, rfl, hkey⟩ pre' d mid rfl ⟨f, now', rfl, -, hfar⟩ -
  have hsplit : entriesHandled (pre' ++ .ordered (.entry f) now' :: mid ++ .ordered (.entry e) now ::
      post) = entriesHandled (pre' ++ .ordered (.entry f) now' :: mid) ++
        entriesHandled (.ordered (.entry e) now :: post) := by
    unfold entriesHandled
    rw [List.filterMap_append, PohSupervisor.entriesIn_append]
  rw [hsplit] at h
  have hle := (List.pairwise_append.mp h).2.2 f (mem_entriesHandled.mpr ⟨now', by simp⟩) e
    (mem_entriesHandled.mpr ⟨now, by simp⟩)
  have hslot : e.slot = key.1 := congrArg Prod.fst hkey
  omega

/-- Tick 0 is no tick. -/
theorem firings_tick_zero (sched : Schedule) (h : key.2 = 0) (is : List Input) :
    firings key ((machine sched).run {} is).2 = 0 := by
  refine (machine sched).run_rule (fun _ _ os => firings key os = 0) {} rfl ?_ is
  intro _ st os i hos
  rw [firings_append, hos, Nat.zero_add]
  cases i with
  | register sig => rfl
  | ordered event now =>
    cases event with
    | entry e =>
      rw [show (machine sched).step st (.ordered (.entry e) now) = handleEntry sched st e now from rfl,
        firings_handleEntry, if_neg fun hn => absurd hn.1.2.2 (by omega)]
    | missing m => rfl
    | slotComplete c => rfl
    | slotIncomplete c => rfl

/-- A tick that is scheduled and was handed over fires once, and no other. -/
theorem firings_of_pairwise (sched : Schedule) {W : ℕ} (hW : W ≤ 256)
    (h : (entriesHandled is).Pairwise fun a b => a.slot ≤ b.slot + W) (key : ℕ × ℕ) :
    (key ∈ sched → 0 < key.2 → (∃ e ∈ entriesHandled is, (e.slot, e.tickIdxInSlot) = key) →
      firings key ((machine sched).run {} is).2 = 1) ∧
    (firings key ((machine sched).run {} is).2 ≠ 0 → key ∈ sched ∧ 0 < key.2 ∧
      ∃ e ∈ entriesHandled is, (e.slot, e.tickIdxInSlot) = key) := by
  constructor
  · intro hs hpos hseen
    exact ((firingLog_run sched hs hpos is).guarded.answered_eq_one_iff
      (someSplit_ticks_iff.mpr hseen)).mpr (neverRefired_of_pairwise hW h)
  · intro hfired
    have hs : key ∈ sched := by
      by_contra hs
      exact hfired (firings_unscheduled sched hs is)
    have hpos : 0 < key.2 := by
      by_contra hpos
      exact hfired (firings_tick_zero sched (by omega) is)
    refine ⟨hs, hpos, ?_⟩
    by_contra hseen
    exact hfired ((firingLog_run sched hs hpos is).guarded.unasked fun hsome =>
      hseen (someSplit_ticks_iff.mp hsome))

end TriggerEngine

/-! ## The chain -/

namespace TriggerPipeline

open Merger (Arrival InWindow)
open PohSupervisor (Config gapAge lagsBehind arrivalsOf arrivedIn Feeds Complete TICKS_PER_SLOT
  defaultConfig)

structure LedgerEntry where
  hash : Hash
  txCount : ℕ
  deriving DecidableEq, Repr

/-- The entries of the chain, slot by slot. Each hash continues the one before it. -/
structure Ledger where
  entries : ℕ → List LedgerEntry
  hashes_nodup : ∀ k, ((entries k).map LedgerEntry.hash).Nodup
  indexable : ∀ k, (entries k).length ≤ 2 ^ 32

namespace Ledger

variable (L : Ledger)

/-- The observation shows an entry of the ledger at its place. -/
def Shows (obs : EntryObservation) : Prop :=
  (L.entries obs.slot)[obs.entryIndex.val]? = some ⟨obs.entryHash, obs.txCount⟩

instance (obs : EntryObservation) : Decidable (L.Shows obs) := inferInstanceAs (Decidable (_ = _))

/-- The ticks among the first `n` entries of slot `k`. -/
def ticksBefore (k n : ℕ) : ℕ := ((L.entries k).take n).countP fun e => e.txCount == 0

/-- Tick `key.2` of slot `key.1` can be counted: all entries up to it were received. -/
def Due (received : List Arrival) (key : ℕ × ℕ) : Prop :=
  1 ≤ key.2 ∧ key.2 ≤ TICKS_PER_SLOT ∧ ∃ n, key.2 ≤ L.ticksBefore key.1 n ∧
    ∀ i < n, ∃ a ∈ received, a.1.slot = key.1 ∧ a.1.entryIndex.val = i

end Ledger

/-- The supervisor, after `pre`, meets a buffer with room, gives up no gap, and seals no slot
before all of its entries have come. -/
def Unhurried (cfg : Config) (L : Ledger) (pre : List PohSupervisor.Input) :
    PohSupervisor.Input → Prop
  | .arrival m _ =>
    let s := (((PohSupervisor.machine cfg).run {} pre).1.slots.get? m.observation.slot).getD {}
    s.nextExpectedIdx < m.observation.entryIndex → s.pending.size < cfg.maxPendingPerSlot
  | .sweep now =>
    let st := ((PohSupervisor.machine cfg).run {} pre).1
    ∀ e ∈ st.slots.entries, (∀ age ∈ gapAge now e.2, age < cfg.entryTimeout) ∧
      (lagsBehind cfg st.maxSlot e.1 = true →
        ∀ i < (L.entries e.1).length, ∃ m ∈ arrivalsOf e.1 pre, m.observation.entryIndex.val = i)

instance (cfg : Config) (L : Ledger) (pre : List PohSupervisor.Input) (i : PohSupervisor.Input) :
    Decidable (Unhurried cfg L pre i) :=
  match i with
  | .arrival _ _ => inferInstanceAs (Decidable (_ → _))
  | .sweep _ => inferInstanceAs (Decidable (∀ e ∈ _, _ ∧ _))

/-- The feeds bring copies of the ledger, none a window late, to an unhurried supervisor. -/
structure Orderly (cfg : Config) (L : Ledger) (st : State) : Prop where
  shown : ∀ a ∈ received st, L.Shows a.1
  inWindow : InWindow (received st)
  unhurried : EverySplit (Unhurried cfg L) (supervised st)

/-- How often a key has fired. -/
structure FiresOnce (L : Ledger) (sched : TriggerEngine.Schedule) (st : State)
    (os : List TriggerEngine.Output) (key : ℕ × ℕ) : Prop where
  atMostOnce : TriggerEngine.firings key os ≤ 1
  onlyDue : TriggerEngine.firings key os ≠ 0 → key ∈ sched ∧ L.Due (received st) key
  whenDue : mergedQueue st = [] → orderedQueue st = [] → key ∈ sched → L.Due (received st) key →
    TriggerEngine.firings key os = 1

/-! ## The ledger as the lists the supervisor reorders -/

section Ledger

variable {L : Ledger} {ms : List MergedEntry} {k : ℕ}

def isAt (k i : ℕ) (m : MergedEntry) : Bool :=
  m.observation.slot == k && m.observation.entryIndex.val == i

/-- An entry that was not passed on yet, from either feed. -/
def placeholder (k i : ℕ) (e : LedgerEntry) : MergedEntry where
  observation :=
    { source := .shredStream, observedAt := 0, slot := k, entryIndex := Fin.ofNat (2 ^ 32) i,
      numHashes := 0, entryHash := e.hash, txCount := e.txCount, signatures := [] }
  firstSeenSource := .shredStream

/-- Slot `k` of the ledger, in the copies of `ms`. -/
def Ledger.copies (L : Ledger) (ms : List MergedEntry) (k : ℕ) : List MergedEntry :=
  (L.entries k).mapIdx fun i e => (ms.find? (isAt k i)).getD (placeholder k i e)

/-- Some of the ledger's entries, each once. -/
structure Excerpt (L : Ledger) (ms : List MergedEntry) : Prop where
  shown : ∀ m ∈ ms, L.Shows m.observation
  keys_nodup : (ms.map MergedEntry.key).Nodup

theorem getElem?_copies {i : ℕ} {m : MergedEntry} (h : (L.copies ms k)[i]? = some m) :
    ∃ e, (L.entries k)[i]? = some e ∧ m = (ms.find? (isAt k i)).getD (placeholder k i e) := by
  rw [Ledger.copies, List.getElem?_mapIdx] at h
  obtain ⟨e, he, rfl⟩ := Option.map_eq_some_iff.mp h
  exact ⟨e, he, rfl⟩

theorem complete_copies (L : Ledger) (ms : List MergedEntry) (k : ℕ) :
    Complete k (L.copies ms k) := by
  intro i m hm
  obtain ⟨e, he, rfl⟩ := getElem?_copies hm
  cases hfind : ms.find? (isAt k i) with
  | none =>
    have hlt := (List.getElem?_eq_some_iff.mp he).1
    have hmax := L.indexable k
    exact ⟨rfl, Nat.mod_eq_of_lt (by omega)⟩
  | some m =>
    have hat := List.find?_some hfind
    simpa [isAt] using hat

/-- Two copies at one place are one. -/
theorem Excerpt.eq_of_place (h : Excerpt L ms) {m m' : MergedEntry} (hm : m ∈ ms) (hm' : m' ∈ ms)
    (hslot : m.observation.slot = m'.observation.slot)
    (hidx : m.observation.entryIndex.val = m'.observation.entryIndex.val) : m = m' := by
  have hs := h.shown m hm
  have hs' := h.shown m' hm'
  unfold Ledger.Shows at hs hs'
  rw [hslot, hidx, hs'] at hs
  have hhash : m'.observation.entryHash = m.observation.entryHash :=
    congrArg LedgerEntry.hash (Option.some.inj hs)
  exact List.inj_on_of_nodup_map h.keys_nodup hm hm' (Prod.ext hslot hhash.symm)

/-- Two entries of a slot with one hash stand at one place. -/
theorem Ledger.place_of_hash {obs obs' : EntryObservation} (h : L.Shows obs) (h' : L.Shows obs')
    (hslot : obs.slot = obs'.slot) (hhash : obs.entryHash = obs'.entryHash) :
    obs.entryIndex.val = obs'.entryIndex.val := by
  unfold Shows at h h'
  have hn := L.hashes_nodup obs.slot
  have hget : ((L.entries obs.slot).map LedgerEntry.hash)[obs.entryIndex.val]? =
      some obs.entryHash := by
    rw [List.getElem?_map, h]
    rfl
  have hget' : ((L.entries obs.slot).map LedgerEntry.hash)[obs'.entryIndex.val]? =
      some obs.entryHash := by
    rw [List.getElem?_map, hslot, h', hhash]
    rfl
  obtain ⟨hlt, -⟩ := List.getElem?_eq_some_iff.mp hget
  exact (List.getElem?_inj hlt hn).mp (hget.trans hget'.symm)

theorem Excerpt.mem_copies (h : Excerpt L ms) {m : MergedEntry} (hm : m ∈ ms)
    (hslot : m.observation.slot = k) : m ∈ L.copies ms k := by
  have hs := h.shown m hm
  unfold Ledger.Shows at hs
  rw [hslot] at hs
  refine List.mem_iff_getElem?.mpr ⟨m.observation.entryIndex.val, ?_⟩
  rw [Ledger.copies, List.getElem?_mapIdx, hs]
  cases hfind : ms.find? (isAt k m.observation.entryIndex.val) with
  | none =>
    have hnot := List.find?_eq_none.mp hfind m hm
    simp [isAt, hslot] at hnot
  | some m' =>
    have hat := List.find?_some hfind
    simp only [isAt, Bool.and_eq_true, beq_iff_eq] at hat
    have heq := h.eq_of_place (List.mem_of_find?_eq_some hfind) hm (hat.1.trans hslot.symm) hat.2
    rw [heq]
    rfl

/-- The copies count the ticks of the ledger. -/
theorem Excerpt.ticksAmong_copies (h : Excerpt L ms) (k n : ℕ) :
    PohSupervisor.ticksAmong ((L.copies ms k).take n) = L.ticksBefore k n := by
  have htx : (L.copies ms k).map (fun m => m.observation.txCount) =
      (L.entries k).map LedgerEntry.txCount := by
    refine List.ext_getElem? fun i => ?_
    rw [List.getElem?_map, List.getElem?_map, Ledger.copies, List.getElem?_mapIdx]
    cases he : (L.entries k)[i]? with
    | none => rfl
    | some e =>
      cases hfind : ms.find? (isAt k i) with
      | none => rfl
      | some m =>
        have hat := List.find?_some hfind
        simp only [isAt, Bool.and_eq_true, beq_iff_eq] at hat
        have hs := h.shown m (List.mem_of_find?_eq_some hfind)
        unfold Ledger.Shows at hs
        rw [hat.1, hat.2, he] at hs
        exact congrArg (fun e => some (LedgerEntry.txCount e)) (Option.some.inj hs).symm
  have hcount := congrArg (fun l => (l.take n).countP (· == 0)) htx
  simp only [← List.map_take, List.countP_map] at hcount
  exact hcount

end Ledger

/-! ## The threads, one after the other -/

section Chain

variable {cfg : Config} {L : Ledger} {sched : TriggerEngine.Schedule} {st : State}
  {os : List TriggerEngine.Output}

/-- The merger passes on an excerpt of the ledger. -/
theorem Orderly.excerpt (h : Orderly cfg L st) : Excerpt L (Merger.emitted (received st)) where
  shown m hm := by
    obtain ⟨a, ha, rfl⟩ := List.mem_map.mp ((Merger.emitted_sublist _).subset hm)
    exact h.shown a ha
  keys_nodup := Merger.emitted_keys_nodup h.inWindow

theorem Linked.emitted_eq (hl : Linked cfg sched st os) :
    Merger.emitted (received st) = arrivedIn (supervised st) ++ mergedQueue st := hl.merged

theorem Linked.arrivalsOf_sublist (hl : Linked cfg sched st os) (k : ℕ) :
    (arrivalsOf k (supervised st)).Sublist (Merger.emitted (received st)) := by
  rw [hl.emitted_eq, PohSupervisor.arrivalsOf_eq_filter]
  exact List.filter_sublist.trans (List.sublist_append_left _ _)

/-- So the supervisor is fed the slots of the ledger. -/
theorem Orderly.feeds (h : Orderly cfg L st) (hl : Linked cfg sched st os) :
    Feeds cfg (L.copies (Merger.emitted (received st))) (supervised st) where
  complete := complete_copies L _
  nodup k := (List.Nodup.of_map _ h.excerpt.keys_nodup).sublist (hl.arrivalsOf_sublist k)
  mem k m hm := by
    have hslot : m.observation.slot = k := by
      rw [PohSupervisor.arrivalsOf_eq_filter] at hm
      simpa using List.of_mem_filter hm
    exact h.excerpt.mem_copies ((hl.arrivalsOf_sublist k).subset hm) hslot
  undisturbed := by
    intro pre i post hsplit
    have hi := h.unhurried pre i post hsplit
    cases i with
    | arrival m now => exact hi
    | sweep now =>
      intro e he
      obtain ⟨hyoung, hlag⟩ := hi e he
      refine ⟨hyoung, fun hbehind m hm => ?_⟩
      obtain ⟨i, hmi⟩ := List.mem_iff_getElem?.mp hm
      obtain ⟨x, hx, -⟩ := getElem?_copies hmi
      obtain ⟨m', hm', hidx⟩ := hlag hbehind i (List.getElem?_eq_some_iff.mp hx).1
      have hin : m' ∈ arrivalsOf e.1 (supervised st) := by
        rw [hsplit, PohSupervisor.arrivalsOf_append]
        exact List.mem_append_left _ hm'
      have hslot : m'.observation.slot = e.1 := by
        rw [PohSupervisor.arrivalsOf_eq_filter] at hm'
        simpa using List.of_mem_filter hm'
      have hcopy := h.excerpt.mem_copies ((hl.arrivalsOf_sublist e.1).subset hin) hslot
      have hget := (complete_copies L _ e.1).get hcopy
      rw [hidx, hmi] at hget
      rw [Option.some.inj hget]
      exact hm'

/-- And the engine gets entries that are no more than a dedup window out of order. -/
theorem Orderly.handled_pairwise (h : Orderly cfg L st) (hl : Linked cfg sched st os) :
    (TriggerEngine.entriesHandled (handled st)).Pairwise
      fun a b => a.slot ≤ b.slot + Merger.DEDUP_WINDOW_SLOTS := by
  have hreceived : ((received st).map Merger.Arrival.merged).Pairwise
      fun a b => a.observation.slot ≤ b.observation.slot + Merger.DEDUP_WINDOW_SLOTS :=
    List.pairwise_map.mpr h.inWindow
  have hmerged := hreceived.sublist (Merger.emitted_sublist _)
  rw [hl.emitted_eq] at hmerged
  have hsent := (PohSupervisor.entriesIn_pairwise (h.feeds hl) (List.pairwise_append.mp hmerged).1).1
  have hhandled : TriggerEngine.entriesHandled (handled st) =
      PohSupervisor.entriesIn ((handled st).filterMap TriggerEngine.intake.passed?) := rfl
  have hordered := congrArg PohSupervisor.entriesIn hl.ordered
  rw [PohSupervisor.entriesIn_append, ← hhandled] at hordered
  rw [hordered] at hsent
  exact (List.pairwise_append.mp hsent).1

/-- The supervisor numbers an entry of slot `k` with tick `t` only when `t` is due. -/
theorem Orderly.due_of_sent (h : Orderly cfg L st) (hl : Linked cfg sched st os)
    {e : PohSupervisor.OrderedEntry}
    (he : e ∈ PohSupervisor.entriesIn (Effect.sent
      ((PohSupervisor.machine cfg).run {} (supervised st)).2)) (hpos : 0 < e.tickIdxInSlot) :
    L.Due (received st) (e.slot, e.tickIdxInSlot) := by
  obtain ⟨j, hj, hticks, hbefore, -⟩ := PohSupervisor.reach_run (h.feeds hl) e.slot
  have hmem : e.tickIdxInSlot ∈
      PohSupervisor.numbering (L.copies (Merger.emitted (received st)) e.slot) j := by
    rw [← hticks]
    exact List.mem_map_of_mem (PohSupervisor.mem_entriesIn_eventsOf.mpr ⟨he, rfl⟩)
  obtain ⟨i, hi, hnum⟩ := List.mem_map.mp hmem
  have hij := List.mem_range.mp hi
  rw [h.excerpt.ticksAmong_copies] at hnum
  refine ⟨hpos, ?_, i + 1, ?_, fun x hx => ?_⟩
  · dsimp only [TICKS_PER_SLOT]
    omega
  · dsimp only
    omega
  · have hm : (L.copies (Merger.emitted (received st)) e.slot)[x]? = some _ :=
      List.getElem?_eq_getElem (by omega)
    obtain ⟨hslot, hidx⟩ := complete_copies L _ e.slot x _ hm
    have hin := hbefore _ (List.mem_iff_getElem?.mpr ⟨x, by
      rw [List.getElem?_take_of_lt (by omega)]
      exact hm⟩)
    have hemitted := (hl.arrivalsOf_sublist e.slot).subset hin
    obtain ⟨a, ha, heq⟩ := List.mem_map.mp ((Merger.emitted_sublist _).subset hemitted)
    refine ⟨a, ha, ?_, ?_⟩
    · rw [← hslot, ← heq]
      rfl
    · rw [← hidx, ← heq]
      rfl

/-- With the queue to the supervisor empty, every due tick has an entry that carries it. -/
theorem Orderly.sent_of_due (h : Orderly cfg L st) (hl : Linked cfg sched st os)
    (hempty : mergedQueue st = []) {key : ℕ × ℕ} (hdue : L.Due (received st) key) :
    ∃ e ∈ PohSupervisor.entriesIn (Effect.sent
      ((PohSupervisor.machine cfg).run {} (supervised st)).2), (e.slot, e.tickIdxInSlot) = key := by
  obtain ⟨hpos, hmax, n, hticks, hreceived⟩ := hdue
  obtain ⟨j, hj, hnumbers, -, hw⟩ := PohSupervisor.reach_run (h.feeds hl) key.1
  have hemitted : Merger.emitted (received st) = arrivedIn (supervised st) := by
    rw [hl.emitted_eq, hempty, List.append_nil]
  -- the supervisor has come past the entry of the tick
  have hnj : n ≤ j := by
    by_contra hlt
    obtain ⟨a, ha, hslot, hidx⟩ := hreceived j (by omega)
    obtain ⟨m, hm, hkey⟩ := Merger.exists_emitted_key ha
    have hmslot : m.observation.slot = key.1 := (congrArg Prod.fst hkey).trans hslot
    have hplace := Ledger.place_of_hash (h.excerpt.shown m hm) (h.shown a ha) (congrArg Prod.fst hkey)
      (congrArg Prod.snd hkey)
    have hcopy := (complete_copies L _ key.1).get (h.excerpt.mem_copies hm hmslot)
    rw [hplace, hidx] at hcopy
    refine hw m hcopy ?_
    rw [PohSupervisor.arrivalsOf_eq_filter, ← hemitted]
    exact List.mem_filter.mpr ⟨hm, by simp [hmslot]⟩
  have hcount : key.2 - 1 < (((L.copies (Merger.emitted (received st)) key.1).take j).countP
      fun m => m.observation.txCount == 0) := by
    have hmono : L.ticksBefore key.1 n ≤ L.ticksBefore key.1 j :=
      ((List.take_sublist_take_left hnj).countP_le)
    have hcopies := h.excerpt.ticksAmong_copies key.1 j
    unfold PohSupervisor.ticksAmong at hcopies
    rw [hcopies]
    omega
  obtain ⟨pre, m, post, hsplit, hm, hpre⟩ := exists_split_countP hcount
  have hlen := congrArg List.length hsplit
  rw [List.length_take, List.length_append, List.length_cons] at hlen
  have hfirst : (L.copies (Merger.emitted (received st)) key.1).take (pre.length + 1) =
      pre ++ [m] := by
    have htake := congrArg (List.take (pre.length + 1)) hsplit
    rw [List.take_take, Nat.min_eq_left (by omega)] at htake
    rw [htake, List.append_cons, List.take_left' (by simp)]
  have hnumber : key.2 ∈ PohSupervisor.numbering (L.copies (Merger.emitted (received st)) key.1) j := by
    refine List.mem_map.mpr ⟨pre.length, List.mem_range.mpr (by omega), ?_⟩
    rw [hfirst, PohSupervisor.ticksAmong, List.countP_append, hpre, List.countP_singleton, if_pos hm]
    dsimp only [TICKS_PER_SLOT] at hmax
    omega
  rw [← hnumbers] at hnumber
  obtain ⟨e, he, hte⟩ := List.mem_map.mp hnumber
  obtain ⟨hmem, hslot⟩ := PohSupervisor.mem_entriesIn_eventsOf.mp he
  exact ⟨e, hmem, Prod.ext hslot hte⟩

end Chain

/-- From the two feeds to the triggers: a scheduled tick fires at most once and never before its
entries were received, and once they went through the chain it has fired. -/
theorem pipeline_fires_once (cfg : Config) (sched : TriggerEngine.Schedule) (L : Ledger)
    (xs : List Input) (h : Orderly cfg L ((machine cfg sched).run start xs).1) (key : ℕ × ℕ) :
    FiresOnce L sched ((machine cfg sched).run start xs).1 ((machine cfg sched).run start xs).2 key := by
  have hl := linked_run cfg sched xs
  generalize ((machine cfg sched).run start xs).1 = st at *
  obtain ⟨hfires, honly⟩ := TriggerEngine.firings_of_pairwise sched (by decide)
    (h.handled_pairwise hl) key
  rw [← hl.outputs] at hfires honly
  have hordered := congrArg PohSupervisor.entriesIn hl.ordered
  rw [PohSupervisor.entriesIn_append] at hordered
  refine ⟨?_, fun hne => ?_, fun hmerged hqueue hs hdue => ?_⟩
  · by_contra hgt
    obtain ⟨hs, hpos, hseen⟩ := honly (by omega)
    have hone := hfires hs hpos hseen
    omega
  · obtain ⟨hs, hpos, e, he, rfl⟩ := honly hne
    refine ⟨hs, h.due_of_sent hl ?_ hpos⟩
    rw [hordered]
    exact List.mem_append_left _ he
  · obtain ⟨e, he, hkey⟩ := h.sent_of_due hl hmerged hdue
    rw [hordered, hqueue, PohSupervisor.entriesIn_nil, List.append_nil] at he
    exact hfires hs hdue.1 ⟨e, he, hkey⟩

/-! Slot 7 has two entries, the second one a tick. It comes first, and the first entry comes
from both feeds. -/

def sampleLedger : Ledger where
  entries k := if k = 7 then [⟨10, 3⟩, ⟨11, 0⟩] else []
  hashes_nodup k := by
    split_ifs
    · decide
    · exact List.nodup_nil
  indexable k := by
    split_ifs
    · decide
    · decide

def sampleCopy (entryIndex : U32) (txCount : ℕ) (entryHash : Hash) (source : SourceKind) :
    EntryObservation where
  source := source
  observedAt := 0
  slot := 7
  entryIndex := entryIndex
  numHashes := 0
  entryHash := entryHash
  txCount := txCount
  signatures := []

def sampleRun : List Input :=
  [receive (sampleCopy 1 0 11 .shredStream) .shredStream, supervise 1,
    receive (sampleCopy 0 3 10 .yellowstone) .yellowstone, sweep 2, supervise 3,
    receive (sampleCopy 0 3 10 .shredStream) .shredStream, engine 4, supervise 5, engine 6]

def sampleResult : State × List TriggerEngine.Output :=
  (machine defaultConfig {(7, 1)}).run start sampleRun

theorem pipeline_fires_once_sample :
    FiresOnce sampleLedger {(7, 1)} sampleResult.1 sampleResult.2 (7, 1) ∧
      TriggerEngine.firings (7, 1) sampleResult.2 = 1 :=
  ⟨pipeline_fires_once defaultConfig {(7, 1)} sampleLedger sampleRun
    ⟨by decide +kernel, by decide +kernel, by decide +kernel⟩ (7, 1), by decide +kernel⟩

end TriggerPipeline

end SolanaBench.TickTrigger
