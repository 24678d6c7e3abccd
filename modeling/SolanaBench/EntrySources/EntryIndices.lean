import SolanaBench.EntrySources.ShredStreamGrpc

/-! The entry indices of the ShredStream source. The offset of a slot is forgotten with the
session and when the slot falls far behind, and then its next entry is number 0 again. -/
namespace SolanaBench.ShredStreamGrpc

/-- The entries of slot `k` in the order in which they come. -/
def received (k : ℕ) (is : List Input) : List SolanaEntry :=
  is.flatMap fun
    | .connect => []
    | .batch slot entries _ => if slot = k then entries else []

def emitted (k : ℕ) (obs : List EntryObservation) : List EntryObservation :=
  obs.filter fun o => o.slot = k

/-- The entries of slot `k` are numbered from 0 in the order in which they come. -/
def InOrder (k : ℕ) (is : List Input) (obs : List EntryObservation) : Prop :=
  (emitted k obs).map (fun o => (o.entryHash, o.entryIndex.val)) =
    ((received k is).map SolanaEntry.hash).zipIdx

structure Indexing (is : List Input) (obs : List EntryObservation) : Prop where
  apart : obs.Pairwise fun o o' => o.slot = o'.slot → o.entryIndex ≠ o'.entryIndex
  inOrder : ∀ k, InOrder k is obs

/-- The offset of slot `k` is dropped. -/
def Drops (s : Session) (k : ℕ) : Input → Bool
  | .connect => true
  | .batch slot entries _ => (s.advance slot entries).evicts k

/-- The offset of slot `k` was dropped when entries of it had come. -/
def Forgotten (k : ℕ) (is : List Input) : Prop :=
  SomeSplit (fun pre i => received k (pre ++ [i]) ≠ [] ∧ Drops (numberer.run {} pre).1 k i) is

/-- Entries come only for a slot that is not forgotten, and not more than `u32` counts. -/
def Remembered (pre : List Input) : Input → Prop
  | .connect => True
  | .batch slot entries _ => entries = [] ∨
    ¬Forgotten slot pre ∧ (received slot pre).length + entries.length ≤ 2 ^ 32

/-! ## One batch -/

theorem sent_emitBatch (base : U32) (slot : ℕ) (entries : List SolanaEntry) (t : Instant) :
    Effect.sent (emitBatch base slot entries t) =
      entries.zipIdx.map fun e => observation slot (base + Fin.ofNat (2 ^ 32) e.2) e.1 t := by
  simp [emitBatch, Effect.sent, Effect.sent?, List.filterMap_map, Function.comp_def]

theorem emitted_append (k : ℕ) (obs more : List EntryObservation) :
    emitted k (obs ++ more) = emitted k obs ++ emitted k more := List.filter_append ..

theorem emitted_emitBatch (base : U32) (slot : ℕ) (entries : List SolanaEntry) (t : Instant)
    (k : ℕ) : emitted k (Effect.sent (emitBatch base slot entries t)) =
      if slot = k then Effect.sent (emitBatch base slot entries t) else [] := by
  rw [sent_emitBatch]
  unfold emitted
  by_cases hk : slot = k
  · rw [if_pos hk, List.filter_eq_self]
    intro o ho
    obtain ⟨e, -, rfl⟩ := List.mem_map.mp ho
    exact decide_eq_true hk
  · rw [if_neg hk, List.filter_eq_nil_iff]
    intro o ho
    obtain ⟨e, -, rfl⟩ := List.mem_map.mp ho
    exact fun hd => hk (of_decide_eq_true hd)

@[simp] theorem received_nil (k : ℕ) : received k [] = [] := rfl

theorem received_connect (k : ℕ) (is : List Input) : received k (is ++ [.connect]) = received k is := by
  simp [received]

theorem received_batch (k : ℕ) (is : List Input) (slot : ℕ) (entries : List SolanaEntry)
    (t : Instant) : received k (is ++ [.batch slot entries t]) =
      received k is ++ if slot = k then entries else [] := by
  simp [received]

/-- Entries in order stay so iff the batch continues their numbers. -/
theorem inOrder_batch {k : ℕ} {is : List Input} {obs : List EntryObservation} (base : U32)
    (slot : ℕ) (entries : List SolanaEntry) (t : Instant)
    (hlen : (emitted k obs).length = (received k is).length) :
    InOrder k (is ++ [.batch slot entries t]) (obs ++ Effect.sent (emitBatch base slot entries t)) ↔
      InOrder k is obs ∧ (slot = k → entries = [] ∨
        base.val = (received k is).length ∧ (received k is).length + entries.length ≤ 2 ^ 32) := by
  have hnum := U32.numbers_iff SolanaEntry.hash base entries (received k is).length
  unfold InOrder
  rw [received_batch, emitted_append, emitted_emitBatch, List.map_append, List.map_append,
    List.zipIdx_append, List.length_map, Nat.zero_add]
  refine Iff.trans ⟨fun h => List.append_inj h (by simp [hlen]), fun h => by rw [h.1, h.2]⟩
    (and_congr_right fun _ => ?_)
  by_cases hk : slot = k
  · rw [if_pos hk, if_pos hk, sent_emitBatch, List.map_map]
    refine Iff.trans hnum ?_
    simp [hk]
  · simp [hk]

theorem sent_run_snoc (is : List Input) (i : Input) :
    Effect.sent (numberer.run {} (is ++ [i])).2 = Effect.sent (numberer.run {} is).2 ++
      Effect.sent (numberer.step (numberer.run {} is).1 i).2 := by
  rw [EventMachine.run_snoc_snd, Effect.sent_append]

/-- Every entry received is emitted. -/
theorem length_emitted_run (k : ℕ) (is : List Input) :
    (emitted k (Effect.sent (numberer.run {} is).2)).length = (received k is).length := by
  induction is using List.reverseRecOn with
  | nil => rfl
  | append_singleton is i ih =>
    rw [sent_run_snoc, emitted_append, List.length_append, ih]
    cases i with
    | connect =>
      rw [received_connect]
      rfl
    | batch slot entries t =>
      have hstep : (numberer.step (numberer.run {} is).1 (.batch slot entries t)).2 =
          emitBatch ((numberer.run {} is).1.offset slot) slot entries t := rfl
      rw [hstep, emitted_emitBatch, received_batch, List.length_append, sent_emitBatch]
      by_cases hk : slot = k <;> simp [hk]

/-! ## The offsets -/

section

variable {k : ℕ} {is : List Input} {s : Session}

theorem offset_advance (s : Session) (slot : ℕ) (entries : List SolanaEntry) (k : ℕ) :
    (s.advance slot entries).offset k =
      if slot = k then s.offset k + Fin.ofNat (2 ^ 32) entries.length else s.offset k := by
  unfold Session.advance Session.offset
  by_cases hk : slot = k
  · subst hk
    simp [SortedMap.get?_insert_self]
  · simp [SortedMap.get?_insert_of_ne (Ne.symm hk), hk]

theorem offset_evict (s : Session) (k : ℕ) :
    s.evict.offset k = if s.evicts k then 0 else s.offset k := by
  have hretain := s.slotOffset.getD_retain (s.slotOffset.size > 1024)
    (fun slot => decide (slot ≥ s.highestSlot - 512)) k 0
  have hslots : s.evict.slotOffset = if s.slotOffset.size > 1024 then
      s.slotOffset.retain fun slot _ => decide (slot ≥ s.highestSlot - 512) else s.slotOffset := by
    unfold Session.evict
    split <;> rfl
  unfold Session.offset
  rw [hslots, hretain]
  simp only [Session.evicts, decide_eq_true_eq, Bool.and_eq_true, Nat.not_le]

theorem forgotten_snoc (is : List Input) (i : Input) : Forgotten k (is ++ [i]) ↔
    Forgotten k is ∨ received k (is ++ [i]) ≠ [] ∧ Drops (numberer.run {} is).1 k i :=
  SomeSplit.snoc_iff

/-- As long as the entries are in order, the offset is the count of the entries received, or
0 where the slot was forgotten. -/
structure Counted (k : ℕ) (is : List Input) (s : Session) : Prop where
  kept : ¬Forgotten k is → (s.offset k).val = (received k is).length % 2 ^ 32
  lost : Forgotten k is → received k is ≠ [] ∧ (s.offset k).val = 0

/-- Then the next entries continue the numbers iff the slot is not forgotten. -/
theorem Counted.continues_iff (h : Counted k is s) (entries : List SolanaEntry) :
    (entries = [] ∨ (s.offset k).val = (received k is).length ∧
      (received k is).length + entries.length ≤ 2 ^ 32) ↔
    (entries = [] ∨ ¬Forgotten k is ∧ (received k is).length + entries.length ≤ 2 ^ 32) := by
  by_cases hnil : entries = []
  · simp [hnil]
  · have hpos := List.length_pos_iff.mpr hnil
    refine or_congr Iff.rfl (and_congr_left fun hle => ?_)
    by_cases hlost : Forgotten k is
    · obtain ⟨hne, hzero⟩ := h.lost hlost
      have hreceived := List.length_pos_iff.mpr hne
      constructor
      · intro heq
        omega
      · exact fun hn => absurd hlost hn
    · have hkept := h.kept hlost
      rw [Nat.mod_eq_of_lt (by omega)] at hkept
      simp [hkept, hlost]

/-! ## Whole runs -/

theorem inOrder_snoc (k : ℕ) (is : List Input) (i : Input) :
    InOrder k (is ++ [i]) (Effect.sent (numberer.run {} (is ++ [i])).2) ↔
      InOrder k is (Effect.sent (numberer.run {} is).2) ∧ ∀ entries t, i = .batch k entries t →
        entries = [] ∨ ((numberer.run {} is).1.offset k).val = (received k is).length ∧
          (received k is).length + entries.length ≤ 2 ^ 32 := by
  rw [sent_run_snoc]
  cases i with
  | connect =>
    have hstep : (numberer.step (numberer.run {} is).1 .connect).2 = [] := rfl
    rw [hstep, Effect.sent_nil, List.append_nil]
    unfold InOrder
    rw [received_connect]
    simp
  | batch slot entries t =>
    have hbatch := inOrder_batch ((numberer.run {} is).1.offset slot) slot entries t
      (length_emitted_run k is)
    refine hbatch.trans (and_congr_right fun _ => ?_)
    constructor
    · intro h es t' heq
      cases heq
      exact h rfl
    · rintro h rfl
      exact h entries t rfl

theorem Counted.connect (h : Counted k is s) : Counted k (is ++ [.connect]) {} := by
  have hforget : Forgotten k (is ++ [.connect]) ↔ received k is ≠ [] := by
    rw [forgotten_snoc, received_connect]
    simp only [Drops, and_true]
    exact or_iff_right_of_imp fun hlost => (h.lost hlost).1
  refine ⟨fun hkept => ?_, fun hlost => ?_⟩
  · rw [hforget, not_not] at hkept
    rw [received_connect, hkept]
    rfl
  · rw [received_connect]
    exact ⟨hforget.mp hlost, rfl⟩

theorem Counted.batch (h : Counted k is (numberer.run {} is).1) {slot : ℕ}
    {entries : List SolanaEntry} (t : Instant)
    (hnext : slot = k → entries = [] ∨ ¬Forgotten k is ∧
      (received k is).length + entries.length ≤ 2 ^ 32) :
    Counted k (is ++ [.batch slot entries t])
      ((numberer.run {} is).1.advance slot entries).evict := by
  have hforget := forgotten_snoc (k := k) is (.batch slot entries t)
  simp only [Drops] at hforget
  have hgrows : received k is ≠ [] → received k (is ++ [.batch slot entries t]) ≠ [] := by
    rw [received_batch]
    exact fun hne => List.append_ne_nil_of_left_ne_nil hne _
  generalize (numberer.run {} is).1 = s at *
  have hoffset := offset_evict (s.advance slot entries) k
  rw [offset_advance] at hoffset
  by_cases hev : (s.advance slot entries).evicts k = true
  · rw [if_pos hev] at hoffset
    refine ⟨fun hkept => ?_, fun hlost => ⟨?_, by rw [hoffset]; rfl⟩⟩
    · have hnil : received k (is ++ [.batch slot entries t]) = [] := by
        by_contra hne
        exact hkept (hforget.mpr (Or.inr ⟨hne, hev⟩))
      rw [hoffset, hnil]
      rfl
    · rcases hforget.mp hlost with hold | ⟨hne, -⟩
      · exact hgrows (h.lost hold).1
      · exact hne
  · rw [if_neg hev] at hoffset
    have hsame : Forgotten k (is ++ [.batch slot entries t]) ↔ Forgotten k is := by
      rw [hforget]
      simp [hev]
    rw [received_batch] at hgrows
    refine ⟨fun hkept => ?_, fun hlost => ?_⟩
    · have hval := h.kept (hsame.not.mp hkept)
      rw [hoffset, received_batch]
      by_cases hk : slot = k
      · simp [hk, Fin.val_add, hval]
      · simp [hk, hval]
    · obtain ⟨hne, hzero⟩ := h.lost (hsame.mp hlost)
      rw [hoffset, received_batch]
      refine ⟨hgrows hne, ?_⟩
      by_cases hk : slot = k
      · rcases hnext hk with rfl | ⟨hnot, -⟩
        · simp [hzero]
        · exact absurd (hsame.mp hlost) hnot
      · simp [hk, hzero]

theorem counted_run (h : InOrder k is (Effect.sent (numberer.run {} is).2)) :
    Counted k is (numberer.run {} is).1 := by
  induction is using List.reverseRecOn with
  | nil => exact ⟨fun _ => rfl, fun hlost => absurd hlost SomeSplit.not_nil⟩
  | append_singleton is i ih =>
    obtain ⟨hold, hi⟩ := (inOrder_snoc k is i).mp h
    have hcount := ih hold
    rw [EventMachine.run_snoc_fst]
    cases i with
    | connect => exact hcount.connect
    | batch slot entries t =>
      refine hcount.batch t ?_
      rintro rfl
      exact (hcount.continues_iff entries).mp (hi entries t rfl)

/-- All slots stay in order iff entries come only for slots that are remembered. -/
theorem inOrder_run (is : List Input) :
    (∀ k, InOrder k is (Effect.sent (numberer.run {} is).2)) ↔ EverySplit Remembered is := by
  induction is using List.reverseRecOn with
  | nil => exact ⟨fun _ => EverySplit.nil, fun _ k => rfl⟩
  | append_singleton is i ih =>
    rw [EverySplit.snoc_iff, ← ih]
    simp only [inOrder_snoc]
    rw [forall_and]
    refine and_congr_right fun hold => ?_
    cases i with
    | connect => simp [Remembered]
    | batch slot entries t =>
      have hnext := (counted_run (hold slot)).continues_iff entries
      constructor
      · intro h
        exact hnext.mp (h slot entries t rfl)
      · intro h k es t' heq
        cases heq
        exact hnext.mpr h

end

/-- Observations of a slot numbered in order have different numbers. -/
theorem apart_of_inOrder {is : List Input} {obs : List EntryObservation}
    (h : ∀ k, InOrder k is obs) :
    obs.Pairwise fun o o' => o.slot = o'.slot → o.entryIndex ≠ o'.entryIndex := by
  have hslot : ∀ k, (emitted k obs).Pairwise fun o o' => o.entryIndex ≠ o'.entryIndex := by
    intro k
    have hnodup : ((emitted k obs).map fun o => o.entryIndex.val).Nodup := by
      have hnum := congrArg (List.map Prod.snd) (h k)
      rw [List.map_map, List.zipIdx_map_snd] at hnum
      exact hnum ▸ List.nodup_range'
    exact (List.pairwise_map.mp hnodup).imp fun hne heq => hne (congrArg Fin.val heq)
  clear h
  induction obs with
  | nil => exact List.Pairwise.nil
  | cons o obs ih =>
    refine List.pairwise_cons.mpr ⟨fun o' ho' hsame => ?_, ih fun k => ?_⟩
    · have hself := hslot o.slot
      rw [emitted, List.filter_cons_of_pos (by simp)] at hself
      exact (List.pairwise_cons.mp hself).1 o' (List.mem_filter.mpr ⟨ho', by simp [hsame]⟩)
    · exact (hslot k).sublist ((List.sublist_cons_self o obs).filter _)

/-- Over all sessions the entries of every slot are numbered from 0 in the order in which they
are received, each with a number of its own, iff none comes for a slot whose offset was
dropped after entries of it, by a reconnect or an eviction, or beyond what `u32` counts. -/
theorem indexing_iff (deserialize : Deserialize) (ms : List Message) :
    Indexing (decoded deserialize none ms)
        (Effect.sent ((source deserialize).run {} ms).2) ↔
      EverySplit Remembered (decoded deserialize none ms) := by
  rw [sent_source_run, ← inOrder_run]
  exact ⟨fun h => h.inOrder, fun h => ⟨apart_of_inOrder h, h⟩⟩

/-- A slot whose entries come one in each of two sessions: both are number 0. -/
theorem reconnect_restarts_indices : ¬∀ (deserialize : Deserialize) (ms : List Message),
    Indexing (decoded deserialize none ms)
      (Effect.sent ((source deserialize).run {} ms).2) := by
  intro h
  -- one tick for each byte
  let ticks : Deserialize := fun _ bytes => some (bytes.map fun b => ⟨12500, b.toNat, []⟩)
  have htwo := (h ticks [.connect, .entries 7 [1] 0, .connect, .entries 7 [2] 1]).inOrder 7
  revert htwo
  unfold InOrder
  decide +kernel

end SolanaBench.ShredStreamGrpc
