import SolanaBench.EntrySources.SlotLayout
import SolanaBench.Lib.FilterSum
import SolanaBench.Lib.Splits

/-! The entry indices of the UDP ShredStream path. The sets of a slot are numbered one after
the other as they complete, so an entry has the number of its position only as long as they
complete in the order of the slot. -/
namespace SolanaBench.ShredStreamUdp

open ShredStreamGrpc (SolanaEntry)

/-! ## Emissions and positions -/

/-- What the shreds of a set yield. -/
def entriesOf? (deshred : Deshredder) (decode : DecodeEntries) (set : List Shred) :
    Option (List SolanaEntry) := (deshred (set.map Shred.payload)).bind decode

def entriesOf (deshred : Deshredder) (decode : DecodeEntries) (set : List Shred) :
    List SolanaEntry := (entriesOf? deshred decode set).getD []

/-- What an observation tells of an entry. -/
abbrev Content := ℕ × Hash × ℕ × List Signature

def content (e : SolanaEntry) : Content :=
  (e.numHashes, e.hash, e.transactions.length % 2 ^ 32,
    e.transactions.filterMap fun txn => txn.signatures.head?)

def reported (o : EntryObservation) : Content × ℕ :=
  ((o.numHashes, o.entryHash, o.txCount, o.signatures), o.entryIndex.val)

/-- The entries emitted for slot `k`, each with its number. -/
def emissions (k : ℕ) (os : List Output) : List (Content × ℕ) :=
  ((Effect.sent os).filter fun o => o.slot = k).map reported

section

variable (parse : ParseShred) (deshred : Deshredder) (decode : DecodeEntries) (startedAt : Instant)
  (k : ℕ) (sets : List (List Shred))

def Worker.run (is : List Input) : Worker × List Output :=
  (Worker.machine parse deshred decode).run { lastEvict := startedAt } is

/-- Just the entries of the set that the packet finishes are emitted, with their positions. -/
structure Places (pre : List Input) (i : Input) : Prop where
  finish : ∀ before set after, sets = before ++ set :: after → Finishes parse k set pre i →
    emissions k ((Worker.machine parse deshred decode).step
      (Worker.run parse deshred decode startedAt pre).1 i).2 =
        ((entriesOf deshred decode set).map content).zipIdx
          (before.flatMap (entriesOf deshred decode)).length
  idle : (∀ set ∈ sets, ¬Finishes parse k set pre i) →
    emissions k ((Worker.machine parse deshred decode).step
      (Worker.run parse deshred decode startedAt pre).1 i).2 = []

/-- The worker emits the entries of the slot, each with its position in the slot. -/
structure Positions (is : List Input) : Prop where
  all : (emissions k (Worker.run parse deshred decode startedAt is).2).Perm
    ((sets.flatMap (entriesOf deshred decode)).map content).zipIdx
  places : EverySplit (Places parse deshred decode startedAt k sets) is

/-! ## The condition -/

/-- The eviction keeps the sets of slot `k`. -/
def Worker.keeps (w : Worker) (i : Input) : Prop :=
  (w.ingest parse deshred decode i).1.evictsAt i.now → ∀ f st,
    (w.ingest parse deshred decode i).1.tracker.lookup (k, f) = some st →
      FecTracker.alive i.now MAX_AGE st

/-- The offset of slot `k` is dropped. -/
def Worker.drops (w : Worker) (i : Input) : Bool :=
  let r := (w.ingest parse deshred decode i).1
  r.evictsAt i.now && decide (r.slotEntryOffset.size > 2048) && decide (k < r.highestSlot - 512)

def complete (is : List Input) (set : List Shred) : Bool :=
  decide (set ⊆ slotShreds parse k is)

/-- How many entries the sets hold that are complete. -/
def completeEntries (is : List Input) : ℕ :=
  FilterSum.doneSum (fun set => (entriesOf deshred decode set).length) (complete parse k is) sets

/-- The offset of the slot was dropped when a set with entries was complete. -/
def OffsetForgotten (is : List Input) : Prop :=
  SomeSplit (fun pre i => completeEntries parse deshred decode k sets (pre ++ [i]) ≠ 0 ∧
    (Worker.run parse deshred decode startedAt pre).1.drops parse deshred decode k i) is

/-- When the packet finishes a set with entries, all sets with entries before it are complete,
the offset has not been dropped, and `u32` counts the entries. -/
def InTurn (pre : List Input) (i : Input) : Prop :=
  ∀ before set after, sets = before ++ set :: after → Finishes parse k set pre i →
    entriesOf deshred decode set ≠ [] →
      (∀ set' ∈ before, entriesOf deshred decode set' ≠ [] → set' ⊆ slotShreds parse k pre) ∧
      ¬OffsetForgotten parse deshred decode startedAt k sets pre ∧
      (before.flatMap (entriesOf deshred decode)).length +
        (entriesOf deshred decode set).length ≤ 2 ^ 32

end

/-! ## One step of the worker -/

section

variable {parse : ParseShred} {deshred : Deshredder} {decode : DecodeEntries} {startedAt : Instant}
  {k : ℕ} {sets : List (List Shred)} {set : List Shred} {w : Worker} {i : Input}

theorem emissions_append (k : ℕ) (os ps : List Output) :
    emissions k (os ++ ps) = emissions k os ++ emissions k ps := by
  simp [emissions]

/-- The numbers that the entries of a set get. -/
theorem emissions_observations (ready : FecSetReady) (base : U32) (entries : List SolanaEntry) :
    emissions k (entries.zipIdx.map fun e =>
        .send (observation ready (base + Fin.ofNat (2 ^ 32) e.2) e.1)) =
      if ready.slot = k then
        entries.zipIdx.map fun e => (content e.1, (base + Fin.ofNat (2 ^ 32) e.2).val)
      else [] := by
  have hsent : Effect.sent (entries.zipIdx.map fun e =>
      (.send (observation ready (base + Fin.ofNat (2 ^ 32) e.2) e.1) : Output)) =
        entries.zipIdx.map fun e => observation ready (base + Fin.ofNat (2 ^ 32) e.2) e.1 := by
    simp [Effect.sent, Effect.sent?, List.filterMap_map, Function.comp_def]
  unfold emissions
  rw [hsent]
  by_cases hslot : ready.slot = k
  · rw [if_pos hslot, List.filter_eq_self.mpr, List.map_map]
    · rfl
    · intro o ho
      obtain ⟨e, -, rfl⟩ := List.mem_map.mp ho
      exact decide_eq_true hslot
  · rw [if_neg hslot, List.filter_eq_nil_iff.mpr, List.map_nil]
    intro o ho
    obtain ⟨e, -, rfl⟩ := List.mem_map.mp ho
    exact fun hd => hslot (of_decide_eq_true hd)

theorem emitEntries_other {ready : FecSetReady} {offsets : SortedMap ℕ U32} (h : ready.slot ≠ k) :
    (emitEntries deshred decode ready offsets).1.get? k = offsets.get? k ∧
      emissions k (emitEntries deshred decode ready offsets).2 = [] := by
  unfold emitEntries
  cases deshred (ready.dataShreds.map Shred.payload) with
  | none => exact ⟨rfl, rfl⟩
  | some bytes =>
    dsimp only
    cases decode bytes with
    | none => exact ⟨rfl, rfl⟩
    | some entries =>
      exact ⟨SortedMap.get?_insert_of_ne (Ne.symm h) _,
        (emissions_observations ready _ entries).trans (if_neg h)⟩

theorem emitEntries_set {ready : FecSetReady} {offsets : SortedMap ℕ U32}
    (h : (entriesOf? deshred decode ready.dataShreds).isSome) :
    let entries := entriesOf deshred decode ready.dataShreds
    let base := (offsets.get? ready.slot).getD 0
    (emitEntries deshred decode ready offsets).1.get? ready.slot =
        some (base + Fin.ofNat (2 ^ 32) entries.length) ∧
      emissions ready.slot (emitEntries deshred decode ready offsets).2 =
        entries.zipIdx.map fun e => (content e.1, (base + Fin.ofNat (2 ^ 32) e.2).val) := by
  obtain ⟨entries, hentries⟩ := Option.isSome_iff_exists.mp h
  have hentriesOf : entriesOf deshred decode ready.dataShreds = entries := by
    rw [entriesOf, hentries, Option.getD_some]
  obtain ⟨bytes, hbytes, hdecode⟩ := Option.bind_eq_some_iff.mp hentries
  rw [hentriesOf]
  unfold emitEntries
  rw [hbytes]
  dsimp only
  rw [hdecode]
  exact ⟨SortedMap.get?_insert_self .., (emissions_observations ready _ entries).trans (if_pos rfl)⟩

/-- Other slots leave the offset alone. -/
theorem handle_other {o : FecTracker.Output} (h : slotSet? k o = none) :
    (w.handle deshred decode o).1.offset k = w.offset k ∧
      emissions k (w.handle deshred decode o).2 = [] := by
  cases o with
  | send ready =>
    have hslot : ready.slot ≠ k := by
      intro heq
      simp [slotSet?, heq] at h
    obtain ⟨hget, hout⟩ := emitEntries_other hslot
    exact ⟨congrArg (fun o => o.getD 0) hget, hout⟩
  | _ => exact ⟨rfl, rfl⟩

/-- A set of the slot is numbered from the offset on. -/
theorem handle_set {o : FecTracker.Output} (h : slotSet? k o = some set)
    (hentries : (entriesOf? deshred decode set).isSome) :
    (w.handle deshred decode o).1.offset k =
        w.offset k + Fin.ofNat (2 ^ 32) (entriesOf deshred decode set).length ∧
      emissions k (w.handle deshred decode o).2 = (entriesOf deshred decode set).zipIdx.map
        fun e => (content e.1, (w.offset k + Fin.ofNat (2 ^ 32) e.2).val) := by
  cases o with
  | send ready =>
    obtain ⟨rfl, rfl⟩ : ready.slot = k ∧ ready.dataShreds = set := by
      simpa [slotSet?] using h
    obtain ⟨hget, hout⟩ := emitEntries_set hentries
    exact ⟨congrArg (fun o => o.getD 0) hget, hout⟩
  | _ => simp [slotSet?] at h

theorem handling_other {os : List FecTracker.Output} (h : os.filterMap (slotSet? k) = []) :
    ((Worker.handling deshred decode).run w os).1.offset k = w.offset k ∧
      emissions k ((Worker.handling deshred decode).run w os).2 = [] := by
  induction os generalizing w with
  | nil => exact ⟨rfl, rfl⟩
  | cons o os ih =>
    rw [List.filterMap_eq_nil_iff, List.forall_mem_cons, ← List.filterMap_eq_nil_iff] at h
    obtain ⟨hoffset, hout⟩ := handle_other (w := w) h.1
    obtain ⟨hoffset', hout'⟩ := ih (w := (w.handle deshred decode o).1) h.2
    rw [EventMachine.run_cons, emissions_append]
    refine ⟨hoffset'.trans hoffset, ?_⟩
    exact (congrArg₂ (· ++ ·) hout hout').trans (List.append_nil [])

theorem tracker_handling (os : List FecTracker.Output) :
    ((Worker.handling deshred decode).run w os).1.tracker = w.tracker := by
  induction os generalizing w with
  | nil => rfl
  | cons o os ih =>
    rw [EventMachine.run_cons_fst, ih]
    cases o <;> rfl

theorem length_ingest (tracker : FecTracker) :
    (tracker.ingest parse i.packet i.completedAt).2.length ≤ 1 := by
  unfold FecTracker.ingest
  cases parse i.packet.bytes with
  | none => exact Nat.le_refl 1
  | some s =>
    dsimp only
    split
    · exact Nat.le_refl 1
    · exact Nat.zero_le 1

variable (deshred decode) in
theorem tracker_ingest : (w.ingest parse deshred decode i).1.tracker =
    (w.tracker.ingest parse i.packet i.completedAt).1 := tracker_handling _

/-- A packet that completes no set of the slot. -/
theorem ingest_idle
    (h : (w.tracker.ingest parse i.packet i.completedAt).2.filterMap (slotSet? k) = []) :
    (w.ingest parse deshred decode i).1.offset k = w.offset k ∧
      emissions k (w.ingest parse deshred decode i).2 = [] := handling_other h

/-- A packet that completes a set of the slot. -/
theorem ingest_finish
    (h : (w.tracker.ingest parse i.packet i.completedAt).2.filterMap (slotSet? k) = [set])
    (hentries : (entriesOf? deshred decode set).isSome) :
    (w.ingest parse deshred decode i).1.offset k =
        w.offset k + Fin.ofNat (2 ^ 32) (entriesOf deshred decode set).length ∧
      emissions k (w.ingest parse deshred decode i).2 = (entriesOf deshred decode set).zipIdx.map
        fun e => (content e.1, (w.offset k + Fin.ofNat (2 ^ 32) e.2).val) := by
  obtain ⟨o, hout⟩ : ∃ o, (w.tracker.ingest parse i.packet i.completedAt).2 = [o] := by
    refine List.length_eq_one_iff.mp ((length_ingest w.tracker).antisymm (List.length_pos_iff.mpr ?_))
    intro hnil
    simp [hnil] at h
  have ho : slotSet? k o = some set := by
    rw [hout] at h
    cases hs : slotSet? k o with
    | none => simp [hs] at h
    | some set' => simpa [hs] using h
  obtain ⟨hoffset, hemit⟩ := handle_set
    (w := { w with tracker := (w.tracker.ingest parse i.packet i.completedAt).1 }) ho hentries
  unfold Worker.ingest
  dsimp only
  rw [hout, EventMachine.run_cons, EventMachine.run_nil, List.append_nil]
  exact ⟨hoffset, hemit⟩

/-- The eviction only drops: sets, and the offset. -/
theorem step_offset : ((Worker.machine parse deshred decode).step w i).1.offset k =
    if w.drops parse deshred decode k i then 0
    else (w.ingest parse deshred decode i).1.offset k := by
  unfold Worker.machine Worker.drops
  dsimp only
  generalize w.ingest parse deshred decode i = r
  by_cases hev : r.1.evictsAt i.now = true
  · have hget := r.1.slotEntryOffset.getD_retain (r.1.slotEntryOffset.size > 2048)
      (fun slot => decide (slot ≥ r.1.highestSlot - 512)) k 0
    rw [if_pos hev]
    refine hget.trans ?_
    simp only [hev, decide_eq_true_eq, Bool.true_and, Bool.and_eq_true, Nat.not_le]
    rfl
  · rw [if_neg hev]
    simp [hev]

theorem step_emissions : emissions k ((Worker.machine parse deshred decode).step w i).2 =
    emissions k (w.ingest parse deshred decode i).2 := by
  have hevict : ∀ r : Worker, emissions k (r.evict i.now).2 = [] := by
    intro r
    have hsent : Effect.sent (r.evict i.now).2 = [] := by
      refine List.filterMap_eq_nil_iff.mpr fun o ho => ?_
      obtain ⟨_, -, rfl⟩ := List.mem_map.mp ho
      rfl
    unfold emissions
    rw [hsent]
    rfl
  unfold Worker.machine
  dsimp only
  split
  · rw [emissions_append, hevict, List.append_nil]
  · rfl

/-- What the tracker holds of a set of the slot survives the eviction. -/
theorem step_holds {key : FecKey} {held : List Shred} (hkey : key.1 = k)
    (hkeeps : w.keeps parse deshred decode k i)
    (h : Holds key (w.tracker.ingest parse i.packet i.completedAt).1 held) :
    Holds key ((Worker.machine parse deshred decode).step w i).1.tracker held := by
  rw [← tracker_ingest deshred decode] at h
  unfold Worker.machine
  dsimp only
  split
  · rename_i hev
    have hsame : ((w.ingest parse deshred decode i).1.evict i.now).1.tracker.lookup key =
        (w.ingest parse deshred decode i).1.tracker.lookup key := by
      refine (AList.lookup_retain ..).trans ?_
      subst hkey
      cases hst : (w.ingest parse deshred decode i).1.tracker.lookup key with
      | none => rfl
      | some st => simp [Option.filter, hkeeps hev key.2 st hst]
    have hdata := h.data
    have hexpected := h.expected
    rw [← hsame] at hdata hexpected
    exact ⟨hdata, hexpected, h.short⟩
  · exact h

end
/-! ## Sets that complete one by one -/

section

variable {parse : ParseShred} {deshred : Deshredder} {decode : DecodeEntries} {startedAt : Instant}
  {k : ℕ} {sets before after : List (List Shred)} {set : List Shred} {pre : List Input} {i : Input}

theorem complete_mono (h : complete parse k pre set) : complete parse k (pre ++ [i]) set := by
  refine decide_eq_true fun s hs => ?_
  rw [slotShreds_append]
  exact List.mem_append_left _ (of_decide_eq_true h hs)

/-- Who is complete changes only by finishing. -/
theorem complete_snoc (h : ¬Finishes parse k set pre i) :
    complete parse k (pre ++ [i]) set = complete parse k pre set := by
  rw [Bool.eq_iff_iff]
  refine ⟨fun hdone => ?_, complete_mono⟩
  by_contra hnot
  exact h ⟨of_decide_eq_true hdone, fun hall => hnot (decide_eq_true hall)⟩

theorem complete_idle (h : ∀ set ∈ sets, ¬Finishes parse k set pre i) :
    completeEntries parse deshred decode k sets (pre ++ [i]) =
      completeEntries parse deshred decode k sets pre :=
  FilterSum.doneSum_congr fun set hset => complete_snoc (h set hset)

/-- The other sets do not change when one finishes. -/
theorem complete_others (h : Arriving parse k (before ++ set :: after) (pre ++ [i]))
    (hfin : Finishes parse k set pre i) :
    complete parse k pre set = false ∧ complete parse k (pre ++ [i]) set ∧
      (∀ set' ∈ before, complete parse k (pre ++ [i]) set' = complete parse k pre set') ∧
      ∀ set' ∈ after, complete parse k (pre ++ [i]) set' = complete parse k pre set' := by
  obtain ⟨hbefore, hafter⟩ := h.layout.notMem
  refine ⟨decide_eq_false hfin.2, decide_eq_true hfin.1, fun set' hset' => ?_, fun set' hset' => ?_⟩
  · refine complete_snoc fun hfin' => hbefore ?_
    rwa [← h.finishes_unique (by simp) (by simp [hset']) hfin hfin']
  · refine complete_snoc fun hfin' => hafter ?_
    rwa [← h.finishes_unique (by simp) (by simp [hset']) hfin hfin']

theorem complete_finish (h : Arriving parse k (before ++ set :: after) (pre ++ [i]))
    (hfin : Finishes parse k set pre i) :
    completeEntries parse deshred decode k (before ++ set :: after) (pre ++ [i]) =
      (entriesOf deshred decode set).length +
        completeEntries parse deshred decode k (before ++ set :: after) pre := by
  obtain ⟨hold, hnew, hbefore, hafter⟩ := complete_others h hfin
  exact FilterSum.doneSum_finish hold hnew hbefore hafter

/-- As long as a set with entries is missing, none with entries after it is complete. -/
def Ordered (parse : ParseShred) (deshred : Deshredder) (decode : DecodeEntries) (k : ℕ)
    (sets : List (List Shred)) (is : List Input) : Prop :=
  ∀ before set after, sets = before ++ set :: after → entriesOf deshred decode set ≠ [] →
    ¬complete parse k is set → ∀ set' ∈ after, entriesOf deshred decode set' ≠ [] →
      ¬complete parse k is set'

theorem Ordered.nil (h : Layout k sets) : Ordered parse deshred decode k sets [] := by
  rintro before set after rfl - - set' hset' - hdone
  have hnil : set' = [] := List.subset_nil.mp (of_decide_eq_true hdone)
  exact h.nonempty set' (by simp [hset']) hnil

/-- Sets that complete in turn stay ordered. -/
theorem Ordered.snoc (h : Ordered parse deshred decode k sets pre)
    (hturn : InTurn parse deshred decode startedAt k sets pre i) :
    Ordered parse deshred decode k sets (pre ++ [i]) := by
  rintro before set after rfl hne hmissing set' hset' hne' hdone
  have hold : ¬complete parse k pre set := fun hd => hmissing (complete_mono hd)
  by_cases hfin : Finishes parse k set' pre i
  · obtain ⟨mid, rest, rfl⟩ := List.append_of_mem hset'
    have hearlier := (hturn (before ++ set :: mid) set' rest (by simp) hfin hne').1 set (by simp) hne
    exact hold (decide_eq_true hearlier)
  · rw [complete_snoc hfin] at hdone
    exact h before set after rfl hne hold set' hset' hne' hdone

/-- Of ordered sets, those before a missing one hold all complete entries, and hold as many as
they have exactly if all are complete. -/
theorem Ordered.count (h : Ordered parse deshred decode k (before ++ set :: after) pre)
    (hne : entriesOf deshred decode set ≠ []) (hmissing : ¬complete parse k pre set) :
    completeEntries parse deshred decode k (before ++ set :: after) pre ≤
        (before.flatMap (entriesOf deshred decode)).length ∧
      (completeEntries parse deshred decode k (before ++ set :: after) pre =
          (before.flatMap (entriesOf deshred decode)).length ↔
        ∀ set' ∈ before, entriesOf deshred decode set' ≠ [] → set' ⊆ slotShreds parse k pre) := by
  have hnone : FilterSum.doneSum (fun set => (entriesOf deshred decode set).length)
      (complete parse k pre) (set :: after) = 0 := by
    refine FilterSum.doneSum_eq_zero fun set' hset' hlen => ?_
    rcases List.mem_cons.mp hset' with rfl | hset'
    · exact Bool.not_eq_true _ ▸ hmissing
    · exact Bool.not_eq_true _ ▸ h before set after rfl hne hmissing set' hset'
        fun hnil => hlen (by simp [hnil])
  have hlen : (before.flatMap (entriesOf deshred decode)).length =
      (before.map fun set => (entriesOf deshred decode set).length).sum := List.length_flatMap
  unfold completeEntries
  rw [FilterSum.doneSum_append, hnone, Nat.add_zero, hlen]
  refine ⟨FilterSum.doneSum_le before, FilterSum.doneSum_eq_iff.trans ?_⟩
  refine forall₂_congr fun set' _ => imp_congr ?_ decide_eq_true_iff
  rw [ne_eq, List.length_eq_zero_iff]

end
/-! ## Whole runs -/

/-- The offset counts the entries of the complete sets, or is 0 again where it was dropped. -/
structure Counts (parse : ParseShred) (deshred : Deshredder) (decode : DecodeEntries)
    (startedAt : Instant) (k : ℕ) (sets : List (List Shred)) (is : List Input) (w : Worker) :
    Prop where
  kept : ¬OffsetForgotten parse deshred decode startedAt k sets is →
    (w.offset k).val = completeEntries parse deshred decode k sets is % 2 ^ 32
  lost : OffsetForgotten parse deshred decode startedAt k sets is →
    completeEntries parse deshred decode k sets is ≠ 0 ∧ (w.offset k).val = 0

/-- What holds when the packets of a run have come. -/
structure Tracks (parse : ParseShred) (deshred : Deshredder) (decode : DecodeEntries)
    (startedAt : Instant) (k : ℕ) (sets : List (List Shred)) (is : List Input) (w : Worker) :
    Prop where
  ordered : Ordered parse deshred decode k sets is
  counts : Counts parse deshred decode startedAt k sets is w

section

variable {parse : ParseShred} {deshred : Deshredder} {decode : DecodeEntries} {startedAt : Instant}
  {k : ℕ} {sets before after : List (List Shred)} {set : List Shred} {pre : List Input} {i : Input}
  {w : Worker}

theorem run_snoc (pre : List Input) (i : Input) :
    Worker.run parse deshred decode startedAt (pre ++ [i]) =
      (((Worker.machine parse deshred decode).step
          (Worker.run parse deshred decode startedAt pre).1 i).1,
        (Worker.run parse deshred decode startedAt pre).2 ++
          ((Worker.machine parse deshred decode).step
            (Worker.run parse deshred decode startedAt pre).1 i).2) :=
  EventMachine.run_snoc ..

/-- As long as none of its sets is evicted, the tracker holds what has come of the slot. -/
theorem holds_run
    (h : EverySplit (fun pre i =>
      (Worker.run parse deshred decode startedAt pre).1.keeps parse deshred decode k i) pre)
    {key : FecKey} (hkey : key.1 = k) :
    Holds key (Worker.run parse deshred decode startedAt pre).1.tracker (held parse key pre) := by
  induction pre using List.reverseRecOn with
  | nil => exact ⟨rfl, rfl, not_full_nil⟩
  | append_singleton pre i ih =>
    obtain ⟨hpre, hi⟩ := EverySplit.snoc_iff.mp h
    rw [run_snoc]
    exact step_holds hkey hi (holds_ingest (ih hpre))

/-- The number of entries that the packet adds to the complete ones goes to the offset. -/
theorem offset_ingest (h : Arriving parse k sets (pre ++ [i]))
    (hdecodes : ∀ set ∈ sets, (entriesOf? deshred decode set).isSome)
    (hholds : ∀ key : FecKey, key.1 = k → Holds key w.tracker (held parse key pre)) :
    ∃ n, completeEntries parse deshred decode k sets (pre ++ [i]) =
        n + completeEntries parse deshred decode k sets pre ∧
      (w.ingest parse deshred decode i).1.offset k = w.offset k + Fin.ofNat (2 ^ 32) n ∧
      (n ≠ 0 → ∃ set ∈ sets, Finishes parse k set pre i ∧ entriesOf deshred decode set ≠ []) := by
  by_cases hidle : ∀ set ∈ sets, ¬Finishes parse k set pre i
  · refine ⟨0, ?_, ?_, fun hn => absurd rfl hn⟩
    · rw [complete_idle hidle, Nat.zero_add]
    · rw [(ingest_idle ((h.slotSets hholds).2 hidle)).1]
      exact (Fin.add_zero (w.offset k)).symm
  · obtain ⟨set, hset, hfin⟩ : ∃ set ∈ sets, Finishes parse k set pre i := by
      simpa using hidle
    have hout := (h.slotSets hholds).1 set hset hfin
    refine ⟨(entriesOf deshred decode set).length, ?_,
      (ingest_finish hout (hdecodes set hset)).1, fun hn => ⟨set, hset, hfin, fun hnil => ?_⟩⟩
    · obtain ⟨before, after, rfl⟩ := List.append_of_mem hset
      exact complete_finish h hfin
    · rw [hnil] at hn
      exact hn rfl

theorem offsetForgotten_snoc : OffsetForgotten parse deshred decode startedAt k sets (pre ++ [i]) ↔
    OffsetForgotten parse deshred decode startedAt k sets pre ∨
      completeEntries parse deshred decode k sets (pre ++ [i]) ≠ 0 ∧
      (Worker.run parse deshred decode startedAt pre).1.drops parse deshred decode k i :=
  SomeSplit.snoc_iff

theorem Counts.snoc (h : Arriving parse k sets (pre ++ [i]))
    (hdecodes : ∀ set ∈ sets, (entriesOf? deshred decode set).isSome)
    (hholds : ∀ key : FecKey, key.1 = k → Holds key
      (Worker.run parse deshred decode startedAt pre).1.tracker (held parse key pre))
    (hcounts : Counts parse deshred decode startedAt k sets pre
      (Worker.run parse deshred decode startedAt pre).1)
    (hturn : InTurn parse deshred decode startedAt k sets pre i) :
    Counts parse deshred decode startedAt k sets (pre ++ [i])
      (Worker.run parse deshred decode startedAt (pre ++ [i])).1 := by
  obtain ⟨n, hcomplete, hoffset, hfinish⟩ := offset_ingest h hdecodes hholds
  have hforget := @offsetForgotten_snoc parse deshred decode startedAt k sets pre i
  rw [run_snoc]
  dsimp only
  have hstep := @step_offset parse deshred decode k
    (Worker.run parse deshred decode startedAt pre).1 i
  rw [hoffset] at hstep
  have hval : (((Worker.run parse deshred decode startedAt pre).1.offset k) +
      Fin.ofNat (2 ^ 32) n).val =
        (((Worker.run parse deshred decode startedAt pre).1.offset k).val + n) % 2 ^ 32 := by
    simp [Fin.val_add]
  cases hdrop : (Worker.run parse deshred decode startedAt pre).1.drops parse deshred decode k i
  · rw [hdrop, if_neg Bool.false_ne_true] at hstep
    have hsame : OffsetForgotten parse deshred decode startedAt k sets (pre ++ [i]) ↔
        OffsetForgotten parse deshred decode startedAt k sets pre := by
      rw [hforget]
      simp [hdrop]
    constructor
    · intro hkept
      have hold := hcounts.kept (hsame.not.mp hkept)
      rw [hstep, hval, hcomplete]
      omega
    · intro hlost
      obtain ⟨hne, hzero⟩ := hcounts.lost (hsame.mp hlost)
      have hn : n = 0 := by
        by_contra hn
        obtain ⟨set, hset, hfin, hentries⟩ := hfinish hn
        obtain ⟨before, after, heq⟩ := List.append_of_mem hset
        exact (hturn before set after heq hfin hentries).2.1 (hsame.mp hlost)
      rw [hstep, hval, hcomplete, hzero, hn]
      exact ⟨by omega, rfl⟩
  · rw [hdrop, if_pos rfl] at hstep
    constructor
    · intro hkept
      have hnone : completeEntries parse deshred decode k sets (pre ++ [i]) = 0 := by
        by_contra hne
        exact hkept (hforget.mpr (Or.inr ⟨hne, hdrop⟩))
      rw [hstep, hnone]
      rfl
    · intro hlost
      rw [hstep]
      refine ⟨?_, rfl⟩
      rcases hforget.mp hlost with hold | ⟨hne, -⟩
      · have hne := (hcounts.lost hold).1
        omega
      · exact hne

theorem tracks_run (h : Arriving parse k sets pre)
    (hdecodes : ∀ set ∈ sets, (entriesOf? deshred decode set).isSome)
    (hkeeps : EverySplit (fun pre i =>
      (Worker.run parse deshred decode startedAt pre).1.keeps parse deshred decode k i) pre)
    (hturn : EverySplit (InTurn parse deshred decode startedAt k sets) pre) :
    Tracks parse deshred decode startedAt k sets pre
      (Worker.run parse deshred decode startedAt pre).1 := by
  induction pre using List.reverseRecOn with
  | nil =>
    refine ⟨Ordered.nil h.layout, fun _ => ?_, fun hlost => absurd hlost SomeSplit.not_nil⟩
    have hnone : completeEntries parse deshred decode k sets [] = 0 := by
      refine FilterSum.doneSum_eq_zero fun set hset _ => decide_eq_false fun hall => ?_
      exact h.layout.nonempty set hset (List.subset_nil.mp hall)
    rw [hnone]
    rfl
  | append_singleton pre i ih =>
    obtain ⟨hkeeps, -⟩ := EverySplit.snoc_iff.mp hkeeps
    obtain ⟨hturns, hi⟩ := EverySplit.snoc_iff.mp hturn
    obtain ⟨hordered, hcounts⟩ := ih h.of_append hkeeps hturns
    exact ⟨hordered.snoc hi, hcounts.snoc h hdecodes (fun _ hkey => holds_run hkeeps hkey) hi⟩

/-- The next set gets its positions exactly if it is its turn. -/
theorem places_iff (h : Arriving parse k sets (pre ++ [i]))
    (hdecodes : ∀ set ∈ sets, (entriesOf? deshred decode set).isSome)
    (hholds : ∀ key : FecKey, key.1 = k → Holds key
      (Worker.run parse deshred decode startedAt pre).1.tracker (held parse key pre))
    (htracks : Tracks parse deshred decode startedAt k sets pre
      (Worker.run parse deshred decode startedAt pre).1) :
    Places parse deshred decode startedAt k sets pre i ↔
      InTurn parse deshred decode startedAt k sets pre i := by
  -- the numbers that a finishing set gets are its positions
  have hnumbers : ∀ before set after, sets = before ++ set :: after →
      Finishes parse k set pre i →
      (emissions k ((Worker.machine parse deshred decode).step
        (Worker.run parse deshred decode startedAt pre).1 i).2 =
          ((entriesOf deshred decode set).map content).zipIdx
            (before.flatMap (entriesOf deshred decode)).length ↔
        (entriesOf deshred decode set ≠ [] →
          (∀ set' ∈ before, entriesOf deshred decode set' ≠ [] →
            set' ⊆ slotShreds parse k pre) ∧
          ¬OffsetForgotten parse deshred decode startedAt k sets pre ∧
          (before.flatMap (entriesOf deshred decode)).length +
            (entriesOf deshred decode set).length ≤ 2 ^ 32)) := by
    rintro before set after rfl hfin
    have hout := (h.slotSets hholds).1 set (by simp) hfin
    rw [step_emissions, (ingest_finish hout (hdecodes set (by simp))).2, U32.numbers_iff,
      or_iff_not_imp_left]
    refine imp_congr_right fun hne => ?_
    have hpos := List.length_pos_iff.mpr hne
    obtain ⟨hle, hall⟩ := htracks.ordered.count hne
      (fun hdone => hfin.2 (of_decide_eq_true hdone))
    rw [← hall, ← and_assoc, and_congr_left_iff]
    intro hfits
    by_cases hlost : OffsetForgotten parse deshred decode startedAt k (before ++ set :: after) pre
    · obtain ⟨hsome, hzero⟩ := htracks.counts.lost hlost
      refine ⟨fun hbase => ?_, fun hnot => absurd hlost hnot.2⟩
      omega
    · have hkept := htracks.counts.kept hlost
      rw [Nat.mod_eq_of_lt (by omega)] at hkept
      rw [hkept]
      exact (and_iff_left hlost).symm
  constructor
  · intro hplaces before set after heq hfin
    exact (hnumbers before set after heq hfin).mp (hplaces.finish before set after heq hfin)
  · intro hturn
    refine ⟨fun before set after heq hfin =>
      (hnumbers before set after heq hfin).mpr (hturn before set after heq hfin), fun hidle => ?_⟩
    rw [step_emissions]
    exact (ingest_idle ((h.slotSets hholds).2 hidle)).2

/-- Where every set gets its positions, what is emitted are the entries of the complete sets
with their positions. -/
theorem emissions_perm (h : Arriving parse k sets pre)
    (hplaces : EverySplit (Places parse deshred decode startedAt k sets) pre) :
    (emissions k (Worker.run parse deshred decode startedAt pre).2).Perm
      (((FilterSum.offsets (fun set => (entriesOf deshred decode set).length) 0 sets).filter
        fun e => complete parse k pre e.1).flatMap
          fun e => ((entriesOf deshred decode e.1).map content).zipIdx e.2) := by
  induction pre using List.reverseRecOn with
  | nil =>
    have hnone : (FilterSum.offsets (fun set => (entriesOf deshred decode set).length) 0
        sets).filter (fun e => complete parse k [] e.1) = [] := by
      refine List.filter_eq_nil_iff.mpr fun e he hdone => ?_
      exact h.layout.nonempty e.1 (FilterSum.mem_of_mem_offsets he)
        (List.subset_nil.mp (of_decide_eq_true hdone))
    rw [hnone]
    exact List.Perm.refl []
  | append_singleton pre i ih =>
    obtain ⟨hpre, hi⟩ := EverySplit.snoc_iff.mp hplaces
    have hold := ih h.of_append hpre
    rw [run_snoc, emissions_append]
    by_cases hidle : ∀ set ∈ sets, ¬Finishes parse k set pre i
    · have hsame : ∀ e ∈ FilterSum.offsets (fun set => (entriesOf deshred decode set).length) 0
          sets, complete parse k (pre ++ [i]) e.1 = complete parse k pre e.1 :=
        fun e he => complete_snoc (hidle e.1 (FilterSum.mem_of_mem_offsets he))
      rw [hi.idle hidle, List.append_nil, List.filter_congr hsame]
      exact hold
    · obtain ⟨set, hset, hfin⟩ : ∃ set ∈ sets, Finishes parse k set pre i := by
        simpa using hidle
      obtain ⟨before, after, rfl⟩ := List.append_of_mem hset
      obtain ⟨hmissing, hdone, hbefore, hafter⟩ := complete_others h hfin
      rw [hi.finish before set after rfl hfin]
      have hperm := FilterSum.filter_offsets_perm
        (w := fun set => (entriesOf deshred decode set).length) 0 hmissing hdone hbefore hafter
      refine List.Perm.trans ?_ (hperm.flatMap_right _).symm
      rw [List.flatMap_cons, List.length_flatMap, Nat.zero_add]
      exact List.perm_append_comm.trans (hold.append_left _)

/-- Nothing is evicted in the first 500 ms. -/
theorem keeps_of_early {is : List Input} (h : ∀ i ∈ is, i.now ≤ EVICT_INTERVAL) :
    EverySplit (fun pre i =>
      (Worker.run parse deshred decode startedAt pre).1.keeps parse deshred decode k i) is := by
  rintro pre i post rfl hev
  have hlate : i.now - ((Worker.run parse deshred decode startedAt pre).1.ingest parse deshred
      decode i).1.lastEvict > EVICT_INTERVAL := of_decide_eq_true hev
  exact absurd hlate (Nat.not_lt.mpr ((Nat.sub_le i.now _).trans (h i (by simp))))

end

/-- The entries of a slot get the numbers of their positions iff its sets complete in turn:
whenever a packet completes a set with entries, every set with entries before it is complete,
the slot's offset was not dropped since one was, and the numbers fit `u32`. -/
theorem positions_iff {parse : ParseShred} {deshred : Deshredder} {decode : DecodeEntries}
    {startedAt : Instant} {k : ℕ} {sets : List (List Shred)} {is : List Input}
    (hlayout : Layout k sets) (hsane : Sanitizes parse)
    (hdecodes : ∀ set ∈ sets, (entriesOf? deshred decode set).isSome)
    (honce : (slotShreds parse k is).Perm sets.flatten)
    (hkeeps : EverySplit (fun pre i =>
      (Worker.run parse deshred decode startedAt pre).1.keeps parse deshred decode k i) is) :
    Positions parse deshred decode startedAt k sets is ↔
      EverySplit (InTurn parse deshred decode startedAt k sets) is := by
  have hplaces : EverySplit (Places parse deshred decode startedAt k sets) is ↔
      EverySplit (InTurn parse deshred decode startedAt k sets) is := by
    have harriving : Arriving parse k sets is :=
      .of_perm hlayout hsane honce (List.append_nil is).symm
    clear honce
    induction is using List.reverseRecOn with
    | nil => exact ⟨fun _ => EverySplit.nil, fun _ => EverySplit.nil⟩
    | append_singleton is i ih =>
      obtain ⟨hkeeps, -⟩ := EverySplit.snoc_iff.mp hkeeps
      rw [EverySplit.snoc_iff, EverySplit.snoc_iff]
      refine (and_congr_left' (ih hkeeps harriving.of_append)).trans
        (and_congr_right fun hturns => ?_)
      exact places_iff harriving hdecodes (fun _ hkey => holds_run hkeeps hkey)
        (tracks_run harriving.of_append hdecodes hkeeps hturns)
  refine ⟨fun h => hplaces.mp h.places, fun h => ⟨?_, hplaces.mpr h⟩⟩
  have harriving : Arriving parse k sets is :=
    .of_perm hlayout hsane honce (List.append_nil is).symm
  have hperm := emissions_perm harriving (hplaces.mpr h)
  -- at the end every set is complete
  rw [List.filter_eq_self.mpr, ← FilterSum.zipIdx_flatMap] at hperm
  · exact hperm
  · intro e he
    have hset := FilterSum.mem_of_mem_offsets he
    exact decide_eq_true fun s hs =>
      honce.mem_iff.mpr (List.mem_flatten.mpr ⟨e.1, hset, hs⟩)

/-- The data shred with index `b`, alone in its set. -/
def loneShred (b : UInt8) : Shred where
  slot := 7
  fecSetIndex := Fin.ofNat (2 ^ 32) b.toNat
  index := Fin.ofNat (2 ^ 32) b.toNat
  shredType := .data
  dataComplete := true
  lastInSlot := false
  payload := [b]

def parseLone : ParseShred := fun bytes => bytes.head?.map loneShred

/-- One tick for each byte. -/
def decodeTicks : DecodeEntries := fun bytes => some (bytes.map fun b => ⟨12500, b.toNat, []⟩)

theorem sanitizes_parseLone : Sanitizes parseLone := by
  intro bytes s h
  obtain ⟨b, -, rfl⟩ := Option.map_eq_some_iff.mp h
  have hb := b.toNat_lt
  have hval : (loneShred b).index.val = b.toNat % 2 ^ 32 := rfl
  omega

theorem layout_lone : Layout 7 [[loneShred 0], [loneShred 1]] :=
  ⟨by decide, by decide, by decide, by decide, by decide +kernel⟩

/-- Two sets of one tick each, in the order of the slot. -/
theorem positions_iff_in_order :
    Positions parseLone (fun ps => some ps.flatten) decodeTicks 0 7
        [[loneShred 0], [loneShred 1]] [⟨⟨[0], 0⟩, 1, 1⟩, ⟨⟨[1], 0⟩, 2, 2⟩] ↔
      EverySplit (InTurn parseLone (fun ps => some ps.flatten) decodeTicks 0 7
        [[loneShred 0], [loneShred 1]]) [⟨⟨[0], 0⟩, 1, 1⟩, ⟨⟨[1], 0⟩, 2, 2⟩] := by
  exact positions_iff layout_lone sanitizes_parseLone (by decide) (by decide +kernel)
    (keeps_of_early (by decide))

/-- The second set of a slot completes first: its entry is number 0. -/
theorem late_set_swaps_positions : ¬∀ (parse : ParseShred) (deshred : Deshredder)
    (decode : DecodeEntries) (startedAt : Instant) (k : ℕ) (sets : List (List Shred))
    (is : List Input), Layout k sets → Sanitizes parse →
      (∀ set ∈ sets, (entriesOf? deshred decode set).isSome) →
      (slotShreds parse k is).Perm sets.flatten →
      EverySplit (fun pre i =>
        (Worker.run parse deshred decode startedAt pre).1.keeps parse deshred decode k i) is →
      Positions parse deshred decode startedAt k sets is := by
  intro h
  have hswapped := (h parseLone (fun ps => some ps.flatten) decodeTicks 0 7
    [[loneShred 0], [loneShred 1]] [⟨⟨[1], 0⟩, 1, 1⟩, ⟨⟨[0], 0⟩, 2, 2⟩]
    layout_lone sanitizes_parseLone (by decide) (by decide +kernel)
    (keeps_of_early (by decide))).all
  revert hswapped
  decide +kernel

end SolanaBench.ShredStreamUdp
