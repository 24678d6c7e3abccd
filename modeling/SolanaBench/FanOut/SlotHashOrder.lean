import Mathlib.Data.List.Perm.Basic
import SolanaBench.FanOut.SlotHashCache
import SolanaBench.Lib.RollingWindow

/-! The slot hash cache answers from the set of its updates: their order changes no answer,
as long as no entry index and no tick of a slot is reported twice. -/
namespace SolanaBench.FanOut

/-- The arguments of one call of `update`. -/
structure SlotUpdate where
  slot : ℕ
  entryIndex : ℕ
  entryHash : Hash
  tickIdx : Option ℕ
  deriving DecidableEq, Repr

namespace SlotHashCache

/-- The cache after some calls. -/
def updates (window : ℕ) (us : List SlotUpdate) : SlotHashCache :=
  us.foldl (fun c u => c.update u.slot u.entryIndex u.entryHash u.tickIdx) { window }

end SlotHashCache

/-! ## What should be answered -/

/-- No entry index and no tick of a slot is reported twice. -/
structure DistinctUpdates (us : List SlotUpdate) : Prop where
  entryIndex : (us.map fun u => (u.slot, u.entryIndex)).Nodup
  tickIdx : ((us.filter fun u => u.tickIdx.isSome).map fun u => (u.slot, u.tickIdx)).Nodup

/-- The slot does not lie below the window under the highest slot. -/
def InWindow (window : ℕ) (us : List SlotUpdate) (slot : ℕ) : Prop :=
  ∀ u ∈ us, u.slot - window ≤ slot

/-- The highest entry index of the slot, and its hash. -/
def IsLastEntry (us : List SlotUpdate) (slot entryIndex : ℕ) (hash : Hash) : Prop :=
  (∃ u ∈ us, u.slot = slot ∧ u.entryIndex = entryIndex ∧ u.entryHash = hash) ∧
    ∀ u ∈ us, u.slot = slot → u.entryIndex ≤ entryIndex

/-- The highest tick of the slot, and its hash. -/
def IsLastTick (us : List SlotUpdate) (slot tick : ℕ) (hash : Hash) : Prop :=
  (∃ u ∈ us, u.slot = slot ∧ u.tickIdx = some tick ∧ u.entryHash = hash) ∧
    ∀ u ∈ us, u.slot = slot → ∀ t, u.tickIdx = some t → t ≤ tick

def NoTick (us : List SlotUpdate) (slot : ℕ) : Prop :=
  ∀ u ∈ us, u.slot = slot → u.tickIdx = none

/-- The slot is in the window and this is its last tick. -/
def IsKnownTick (window : ℕ) (us : List SlotUpdate) (slot tick : ℕ) (hash : Hash) : Prop :=
  InWindow window us slot ∧ IsLastTick us slot tick hash

/-- An answer about the slots from `lo` to below `hi`: the nearest one with a tick, and as many
hashes chained on as the ticks that are missing take. -/
def IsRecentBlockhash (sha : Sha256) (window : ℕ) (us : List SlotUpdate) (lo hi : ℕ) :
    Option LookupResult → Prop
  | some r =>
    IsGreatest {s | lo ≤ s ∧ s < hi ∧ ∃ t h, IsKnownTick window us s t h} r.sourceSlot ∧
      r.chainedHashes = (64 - r.anchorTick) * 62_500 ∧
      ∃ h, IsKnownTick window us r.sourceSlot r.anchorTick h ∧
        r.hash = sha.hash^[r.chainedHashes] h
  | none => ∀ s, lo ≤ s → s < hi → ¬∃ t h, IsKnownTick window us s t h

/-- The answers of a cache to every question, from the updates alone. -/
structure AnswersFrom (sha : Sha256) (window : ℕ) (us : List SlotUpdate) (c : SlotHashCache) :
    Prop where
  lastTick : ∀ slot t h, c.getLastTick slot = some (t, h) ↔ IsKnownTick window us slot t h
  summary : ∀ slot i tick h, c.getSummary slot = some (i, tick, h) ↔
    InWindow window us slot ∧ IsLastEntry us slot i h ∧
      ∀ t, tick = some t ↔ ∃ h, IsLastTick us slot t h
  lookup : ∀ landedSlot maxLookback,
    IsRecentBlockhash sha window us (landedSlot - maxLookback) landedSlot
      (c.lookupRecentBlockhash sha landedSlot maxLookback)

section

variable {us vs : List SlotUpdate} {u : SlotUpdate} {slot i t window : ℕ} {h : Hash}

theorem isLastEntry_snoc_higher (hu : u.slot = slot)
    (hle : ∀ v ∈ us, v.slot = slot → v.entryIndex ≤ u.entryIndex) :
    IsLastEntry (us ++ [u]) slot u.entryIndex u.entryHash := by
  refine ⟨⟨u, by simp, hu, rfl, rfl⟩, fun v hv hslot => ?_⟩
  rcases List.mem_append.mp hv with hv | hv
  · exact hle v hv hslot
  · rw [List.mem_singleton.mp hv]

theorem IsLastEntry.snoc_lower (hi : IsLastEntry us slot i h)
    (hu : u.slot = slot → u.entryIndex ≤ i) : IsLastEntry (us ++ [u]) slot i h := by
  obtain ⟨⟨w, hw, hwi⟩, hle⟩ := hi
  refine ⟨⟨w, List.mem_append_left _ hw, hwi⟩, fun v hv hslot => ?_⟩
  rcases List.mem_append.mp hv with hv | hv
  · exact hle v hv hslot
  · rw [List.mem_singleton.mp hv] at hslot ⊢
    exact hu hslot

theorem isLastTick_snoc_higher (hu : u.slot = slot) (ht : u.tickIdx = some t)
    (hle : ∀ v ∈ us, v.slot = slot → ∀ s, v.tickIdx = some s → s ≤ t) :
    IsLastTick (us ++ [u]) slot t u.entryHash := by
  refine ⟨⟨u, by simp, hu, ht, rfl⟩, fun v hv hslot s hs => ?_⟩
  rcases List.mem_append.mp hv with hv | hv
  · exact hle v hv hslot s hs
  · rw [List.mem_singleton.mp hv, ht] at hs
    exact (Option.some.inj hs).ge

theorem IsLastTick.snoc_lower (hi : IsLastTick us slot t h)
    (hu : u.slot = slot → ∀ s, u.tickIdx = some s → s ≤ t) : IsLastTick (us ++ [u]) slot t h := by
  obtain ⟨⟨w, hw, hwt⟩, hle⟩ := hi
  refine ⟨⟨w, List.mem_append_left _ hw, hwt⟩, fun v hv hslot s hs => ?_⟩
  rcases List.mem_append.mp hv with hv | hv
  · exact hle v hv hslot s hs
  · rw [List.mem_singleton.mp hv] at hslot hs
    exact hu hslot s hs

theorem NoTick.snoc (hno : NoTick us slot) (hu : u.slot = slot → u.tickIdx = none) :
    NoTick (us ++ [u]) slot := by
  intro v hv hslot
  rcases List.mem_append.mp hv with hv | hv
  · exact hno v hv hslot
  · rw [List.mem_singleton.mp hv] at hslot ⊢
    exact hu hslot

theorem IsLastTick.not_noTick (hi : IsLastTick us slot t h) : ¬NoTick us slot := by
  obtain ⟨⟨u, hu, hslot, htick, -⟩, -⟩ := hi
  intro hno
  rw [hno u hu hslot] at htick
  cases htick

/-! ## What one slot holds -/

/-- What an update makes of the slot's entry. -/
def SlotUpdate.next (info : Option SlotInfo) (u : SlotUpdate) : SlotInfo :=
  (info.getD {}).update u.entryIndex u.entryHash u.tickIdx

/-- The two tick fields are set together, to the last tick. -/
def TracksTick (us : List SlotUpdate) (slot : ℕ) : Option ℕ → Option Hash → Prop
  | some t, some h => IsLastTick us slot t h
  | none, none => NoTick us slot
  | _, _ => False

structure Tracks (us : List SlotUpdate) (slot : ℕ) (info : SlotInfo) : Prop where
  entry : IsLastEntry us slot info.maxEntryIndex info.lastEntryHash
  tick : TracksTick us slot info.lastTickIdx info.lastTickHash

def TracksSlot (us : List SlotUpdate) (slot : ℕ) : Option SlotInfo → Prop
  | some info => Tracks us slot info
  | none => ∀ u ∈ us, u.slot ≠ slot

/-- A slot that is not in the map counts as one whose highest index is 0 and whose hash was
never written. -/
theorem TracksSlot.entry_or {v : Option SlotInfo} (hv : TracksSlot us slot v) :
    IsLastEntry us slot (v.getD {}).maxEntryIndex (v.getD {}).lastEntryHash ∨
      (v.getD {}).maxEntryIndex = 0 ∧ ∀ u ∈ us, u.slot ≠ slot := by
  cases v with
  | some info => exact Or.inl hv.entry
  | none => exact Or.inr ⟨rfl, hv⟩

theorem TracksSlot.tick {v : Option SlotInfo} (hv : TracksSlot us slot v) :
    TracksTick us slot (v.getD {}).lastTickIdx (v.getD {}).lastTickHash := by
  cases v with
  | some info => exact Tracks.tick hv
  | none => exact fun u hu hslot => absurd hslot (hv u hu)

theorem SlotInfo.update_entry (info : SlotInfo) (entryIndex : ℕ) (entryHash : Hash)
    (tickIdx : Option ℕ) :
    let info' := info.update entryIndex entryHash tickIdx
    (info'.maxEntryIndex, info'.lastEntryHash) =
      if entryIndex > info.maxEntryIndex ∨ info.maxEntryIndex = 0 then (entryIndex, entryHash)
      else (info.maxEntryIndex, info.lastEntryHash) := by
  unfold SlotInfo.update
  cases tickIdx <;> dsimp only <;> split <;> (try split) <;> rfl

theorem SlotInfo.update_tick (info : SlotInfo) (entryIndex : ℕ) (entryHash : Hash)
    (tickIdx : Option ℕ) :
    let info' := info.update entryIndex entryHash tickIdx
    (info'.lastTickIdx, info'.lastTickHash) =
      if ∃ t, tickIdx = some t ∧ ∀ cur, info.lastTickIdx = some cur → cur < t then
        (tickIdx, some entryHash)
      else (info.lastTickIdx, info.lastTickHash) := by
  unfold SlotInfo.update
  cases tickIdx with
  | none => dsimp only; split <;> simp
  | some t =>
    have hall : (info.lastTickIdx.all fun cur => decide (t > cur)) =
        decide (∃ s, some t = some s ∧ ∀ cur, info.lastTickIdx = some cur → cur < s) := by
      cases info.lastTickIdx <;> simp
    split <;> simp [hall] <;> split <;> rfl

/-- The comparison with index 0 also replaces an entry of index 0, by one that is not lower. -/
theorem isLastEntry_next {v : Option SlotInfo} (hv : TracksSlot us slot v) (hu : u.slot = slot) :
    IsLastEntry (us ++ [u]) slot (u.next v).maxEntryIndex (u.next v).lastEntryHash := by
  have hnext := (v.getD {}).update_entry u.entryIndex u.entryHash u.tickIdx
  change (((u.next v).maxEntryIndex, (u.next v).lastEntryHash) : ℕ × Hash) = _ at hnext
  split at hnext
  · obtain ⟨hfst, hsnd⟩ := Prod.mk.inj hnext
    rw [hfst, hsnd]
    refine isLastEntry_snoc_higher hu fun w hw hslot => ?_
    rcases hv.entry_or with hentry | ⟨-, hno⟩
    · have hle := hentry.2 w hw hslot
      omega
    · exact absurd hslot (hno w hw)
  · obtain ⟨hfst, hsnd⟩ := Prod.mk.inj hnext
    rw [hfst, hsnd]
    rcases hv.entry_or with hentry | ⟨hzero, -⟩
    · exact hentry.snoc_lower fun _ => by omega
    · omega

theorem tracksTick_next {v : Option SlotInfo} (hv : TracksSlot us slot v) (hu : u.slot = slot) :
    TracksTick (us ++ [u]) slot (u.next v).lastTickIdx (u.next v).lastTickHash := by
  have hnext := (v.getD {}).update_tick u.entryIndex u.entryHash u.tickIdx
  change (((u.next v).lastTickIdx, (u.next v).lastTickHash) : Option ℕ × Option Hash) = _ at hnext
  have htick := hv.tick
  generalize (v.getD {}).lastTickIdx = cur, (v.getD {}).lastTickHash = curHash at hnext htick
  split at hnext
  · next hhigher =>
    obtain ⟨t, ht, hcur⟩ := hhigher
    obtain ⟨hfst, hsnd⟩ := Prod.mk.inj hnext
    rw [hfst, hsnd, ht]
    refine isLastTick_snoc_higher hu ht fun w hw hslot s hs => ?_
    match cur, curHash, htick with
    | some c, some _, htick => exact (htick.2 w hw hslot s hs).trans (hcur c rfl).le
    | none, none, htick => exact absurd hs (by simp [htick w hw hslot])
  · next hlower =>
    obtain ⟨hfst, hsnd⟩ := Prod.mk.inj hnext
    rw [hfst, hsnd]
    match cur, curHash, htick with
    | some c, some _, htick =>
      refine IsLastTick.snoc_lower htick fun _ s hs => ?_
      by_contra hlt
      exact hlower ⟨s, hs, fun c' hc' => by cases hc'; omega⟩
    | none, none, htick =>
      refine NoTick.snoc htick fun _ => Option.eq_none_iff_forall_not_mem.mpr fun s hs => ?_
      exact hlower ⟨s, hs, fun c' hc' => by cases hc'⟩

/-- An update of another slot. -/
theorem TracksSlot.frame {v : Option SlotInfo} (hv : TracksSlot us slot v) (hu : u.slot ≠ slot) :
    TracksSlot (us ++ [u]) slot v := by
  cases v with
  | none =>
    intro w hw
    rcases List.mem_append.mp hw with hw | hw
    · exact hv w hw
    · rwa [List.mem_singleton.mp hw]
  | some info =>
    obtain ⟨hentry, htick⟩ := hv
    refine ⟨hentry.snoc_lower fun h => absurd h hu, ?_⟩
    generalize info.lastTickIdx = cur, info.lastTickHash = curHash at htick ⊢
    match cur, curHash, htick with
    | some c, some _, htick => exact IsLastTick.snoc_lower htick fun h => absurd h hu
    | none, none, htick => exact NoTick.snoc htick fun h => absurd h hu

theorem tracksSlot_value (us : List SlotUpdate) (slot : ℕ) :
    TracksSlot us slot
      (RollingWindow.value SlotUpdate.slot (fun info u => u.next info) us slot) := by
  induction us using List.reverseRecOn with
  | nil => exact fun u hu => absurd hu List.not_mem_nil
  | append_singleton us u ih =>
    rw [RollingWindow.value_snoc]
    split
    · next hslot => exact ⟨isLastEntry_next ih hslot.symm, tracksTick_next ih hslot.symm⟩
    · next hslot => exact ih.frame fun h => hslot h.symm

/-! ## The cache -/

theorem update_eq_write (c : SlotHashCache) (u : SlotUpdate) :
    c.update u.slot u.entryIndex u.entryHash u.tickIdx =
      ⟨RollingWindow.write SlotUpdate.slot (fun info u => u.next info) c.window c.inner u,
        c.window⟩ := by
  unfold SlotHashCache.update RollingWindow.write RollingWindow.evict SlotUpdate.next
  dsimp only
  generalize c.inner.insert u.slot _ = inner
  cases inner.lastKeyValue with
  | none => rfl
  | some e => dsimp only; split <;> rfl

theorem updates_eq_writes (window : ℕ) (us : List SlotUpdate) :
    SlotHashCache.updates window us =
      ⟨RollingWindow.writes SlotUpdate.slot (fun info u => u.next info) window us, window⟩ := by
  induction us using List.reverseRecOn with
  | nil => rfl
  | append_singleton us u ih =>
    unfold SlotHashCache.updates at ih ⊢
    rw [List.foldl_append, ih, RollingWindow.writes_snoc]
    exact update_eq_write _ u

/-- A slot is answered for if it lies in the window and was updated, by what its updates left. -/
theorem get?_updates (window : ℕ) (us : List SlotUpdate) (slot : ℕ) :
    (InWindow window us slot ∧
        TracksSlot us slot ((SlotHashCache.updates window us).inner.get? slot)) ∨
      ¬InWindow window us slot ∧ (SlotHashCache.updates window us).inner.get? slot = none := by
  have hin : RollingWindow.top SlotUpdate.slot us - window ≤ slot ↔ InWindow window us slot :=
    RollingWindow.top_sub_le_iff
  rw [updates_eq_writes, ← hin]
  dsimp only
  rw [RollingWindow.get?_writes]
  split
  · exact Or.inl ⟨‹_›, tracksSlot_value us slot⟩
  · exact Or.inr ⟨‹_›, rfl⟩

/-! ## One answer only -/

theorem IsLastEntry.unique (hd : DistinctUpdates us) {i' : ℕ} {h' : Hash}
    (h₁ : IsLastEntry us slot i h) (h₂ : IsLastEntry us slot i' h') : i = i' ∧ h = h' := by
  obtain ⟨⟨u, hu, hslot, rfl, rfl⟩, hle⟩ := h₁
  obtain ⟨⟨v, hv, hslot', rfl, rfl⟩, hle'⟩ := h₂
  have hidx : u.entryIndex = v.entryIndex := le_antisymm (hle' u hu hslot) (hle v hv hslot')
  have huv : u = v := List.inj_on_of_nodup_map hd.entryIndex hu hv (by rw [hslot, hslot', hidx])
  exact ⟨hidx, congrArg SlotUpdate.entryHash huv⟩

theorem IsLastTick.unique (hd : DistinctUpdates us) {t' : ℕ} {h' : Hash}
    (h₁ : IsLastTick us slot t h) (h₂ : IsLastTick us slot t' h') : t = t' ∧ h = h' := by
  obtain ⟨⟨u, hu, hslot, htick, rfl⟩, hle⟩ := h₁
  obtain ⟨⟨v, hv, hslot', htick', rfl⟩, hle'⟩ := h₂
  have ht : t = t' := le_antisymm (hle' u hu hslot t htick) (hle v hv hslot' t' htick')
  have huv : u = v := by
    refine List.inj_on_of_nodup_map hd.tickIdx (List.mem_filter.mpr ⟨hu, by simp [htick]⟩)
      (List.mem_filter.mpr ⟨hv, by simp [htick']⟩) ?_
    rw [hslot, hslot', htick, htick', ht]
  exact ⟨ht, congrArg SlotUpdate.entryHash huv⟩

theorem DistinctUpdates.perm (hd : DistinctUpdates us) (hperm : us.Perm vs) :
    DistinctUpdates vs :=
  ⟨(hperm.map _).nodup_iff.mp hd.entryIndex, ((hperm.filter _).map _).nodup_iff.mp hd.tickIdx⟩

/-! ## The answers -/

theorem TracksTick.eq_some_iff (hd : DistinctUpdates us) {tick : Option ℕ} {hash : Option Hash}
    (hc : TracksTick us slot tick hash) :
    tick = some t ∧ hash = some h ↔ IsLastTick us slot t h := by
  match tick, hash, hc with
  | some t', some h', hc =>
    constructor
    · rintro ⟨ht, hh⟩
      cases ht
      cases hh
      exact hc
    · intro hlast
      obtain ⟨rfl, rfl⟩ := hlast.unique hd hc
      exact ⟨rfl, rfl⟩
  | none, none, hc => exact iff_of_false (by simp) fun hlast => hlast.not_noTick hc

theorem Tracks.lastTickIdx_iff (hd : DistinctUpdates us) {info : SlotInfo}
    (hc : Tracks us slot info) : info.lastTickIdx = some t ↔ ∃ h, IsLastTick us slot t h := by
  have htick := hc.tick
  simp only [← htick.eq_some_iff hd]
  generalize info.lastTickIdx = tick, info.lastTickHash = hash at htick ⊢
  match tick, hash, htick with
  | some _, some _, _ => simp
  | none, none, _ => simp

theorem getLastTick_iff (hd : DistinctUpdates us) {c : SlotHashCache}
    (hc : TracksSlot us slot (c.inner.get? slot)) :
    c.getLastTick slot = some (t, h) ↔ IsLastTick us slot t h := by
  unfold SlotHashCache.getLastTick
  generalize c.inner.get? slot = v at hc
  match v, hc with
  | none, hc =>
    refine iff_of_false (by simp) ?_
    rintro ⟨⟨u, hu, hslot, -⟩, -⟩
    exact hc u hu hslot
  | some ⟨_, _, tick, hash⟩, hc =>
    rw [← TracksTick.eq_some_iff hd hc.tick]
    cases tick <;> cases hash <;> simp

theorem getSummary_iff (hd : DistinctUpdates us) {tick : Option ℕ} {c : SlotHashCache}
    (hc : TracksSlot us slot (c.inner.get? slot)) :
    c.getSummary slot = some (i, tick, h) ↔
      IsLastEntry us slot i h ∧ ∀ t, tick = some t ↔ ∃ h, IsLastTick us slot t h := by
  unfold SlotHashCache.getSummary
  generalize c.inner.get? slot = v at hc
  match v, hc with
  | none, hc =>
    refine iff_of_false (by simp) ?_
    rintro ⟨⟨⟨u, hu, hslot, -⟩, -⟩, -⟩
    exact hc u hu hslot
  | some info, hc =>
    have htick : ∀ t, info.lastTickIdx = some t ↔ ∃ h, IsLastTick us slot t h :=
      fun t => Tracks.lastTickIdx_iff hd hc
    simp only [Option.map_some, Option.some.injEq, Prod.mk.injEq]
    constructor
    · rintro ⟨rfl, rfl, rfl⟩
      exact ⟨hc.entry, htick⟩
    · rintro ⟨hentry, htick'⟩
      obtain ⟨hi, hh⟩ := hc.entry.unique hd hentry
      exact ⟨hi, Option.ext fun t => (htick t).trans (htick' t).symm, hh⟩

theorem lookupRecentBlockhash_eq (sha : Sha256) (c : SlotHashCache) (landedSlot maxLookback : ℕ) :
    c.lookupRecentBlockhash sha landedSlot maxLookback =
      (RollingWindow.lookBack c.getLastTick landedSlot (List.range' 1 maxLookback)).map
        fun e => SlotHashCache.lookupResult sha e.1 e.2.1 e.2.2 := by
  unfold SlotHashCache.lookupRecentBlockhash
  generalize List.range' 1 maxLookback = backs
  induction backs with
  | nil => rfl
  | cons back backs ih =>
    unfold SlotHashCache.lookBack RollingWindow.lookBack
    split
    · rfl
    · split <;> simp_all

/-- Where no tick is missing, no hash is chained on. -/
theorem lookupResult_spec (sha : Sha256) (slot t : ℕ) (h : Hash) :
    SlotHashCache.lookupResult sha slot t h =
      ⟨slot, t, sha.hash^[(64 - t) * 62_500] h, (64 - t) * 62_500⟩ := by
  unfold SlotHashCache.lookupResult
  split
  · next hle =>
    have hzero : 64 - t = 0 := Nat.sub_eq_zero_of_le hle
    rw [hzero]
    rfl
  · rfl

theorem isRecentBlockhash_lookup (sha : Sha256) {c : SlotHashCache}
    (hc : ∀ slot t h, c.getLastTick slot = some (t, h) ↔ IsKnownTick window us slot t h)
    (landedSlot maxLookback : ℕ) :
    IsRecentBlockhash sha window us (landedSlot - maxLookback) landedSlot
      (c.lookupRecentBlockhash sha landedSlot maxLookback) := by
  have hsome : ∀ s, (c.getLastTick s).isSome ↔ ∃ t h, IsKnownTick window us s t h := by
    intro s
    rw [Option.isSome_iff_exists, Prod.exists]
    exact exists_congr fun t => exists_congr fun h => hc s t h
  have hnear := RollingWindow.lookBack_isNearest c.getLastTick landedSlot maxLookback
  rw [lookupRecentBlockhash_eq]
  cases hlook : RollingWindow.lookBack c.getLastTick landedSlot (List.range' 1 maxLookback) with
  | none =>
    rw [hlook] at hnear
    intro s hlo hhi
    rw [← hsome, hnear s hlo hhi]
    simp
  | some e =>
    obtain ⟨s, t, h⟩ := e
    rw [hlook] at hnear
    obtain ⟨hgreatest, htick⟩ := hnear
    simp only [hsome] at hgreatest
    rw [Option.map_some, lookupResult_spec]
    exact ⟨hgreatest, rfl, h, (hc s t h).mp htick, rfl⟩

theorem answersFrom_updates (sha : Sha256) (window : ℕ) (hd : DistinctUpdates us) :
    AnswersFrom sha window us (SlotHashCache.updates window us) := by
  have htick : ∀ slot t h, (SlotHashCache.updates window us).getLastTick slot = some (t, h) ↔
      IsKnownTick window us slot t h := by
    intro slot t h
    unfold IsKnownTick
    rcases get?_updates window us slot with ⟨hin, hc⟩ | ⟨hout, hc⟩
    · rw [getLastTick_iff hd hc, and_iff_right hin]
    · exact iff_of_false (by simp [SlotHashCache.getLastTick, hc]) fun hk => hout hk.1
  refine ⟨htick, fun slot i tick h => ?_, isRecentBlockhash_lookup sha htick⟩
  rcases get?_updates window us slot with ⟨hin, hc⟩ | ⟨hout, hc⟩
  · rw [getSummary_iff hd hc, and_iff_right hin]
  · exact iff_of_false (by simp [SlotHashCache.getSummary, hc]) fun hk => hout hk.1

/-! ## Permutations -/

theorem isKnownTick_congr (hmem : ∀ u, u ∈ us ↔ u ∈ vs) :
    IsKnownTick window us slot t h ↔ IsKnownTick window vs slot t h := by
  simp only [IsKnownTick, InWindow, IsLastTick, hmem]

/-- What should be answered only depends on which updates there were. -/
theorem AnswersFrom.congr {sha : Sha256} {c : SlotHashCache} (hmem : ∀ u, u ∈ us ↔ u ∈ vs)
    (hc : AnswersFrom sha window us c) : AnswersFrom sha window vs c := by
  refine ⟨fun slot t h => ?_, fun slot i tick h => ?_, isRecentBlockhash_lookup sha ?_⟩
  · exact (hc.lastTick slot t h).trans (isKnownTick_congr hmem)
  · refine (hc.summary slot i tick h).trans ?_
    simp only [InWindow, IsLastEntry, IsLastTick, hmem]
  · exact fun slot t h => (hc.lastTick slot t h).trans (isKnownTick_congr hmem)

/-- Two caches that should answer from the same updates give the same answers. -/
theorem AnswersFrom.getLastTick_eq {sha : Sha256} {c c' : SlotHashCache}
    (hc : AnswersFrom sha window us c) (hc' : AnswersFrom sha window us c') :
    c.getLastTick = c'.getLastTick := by
  funext slot
  refine Option.ext fun e => ?_
  obtain ⟨t, h⟩ := e
  exact (hc.lastTick slot t h).trans (hc'.lastTick slot t h).symm

theorem AnswersFrom.getSummary_eq {sha : Sha256} {c c' : SlotHashCache}
    (hc : AnswersFrom sha window us c) (hc' : AnswersFrom sha window us c') :
    c.getSummary = c'.getSummary := by
  funext slot
  refine Option.ext fun e => ?_
  obtain ⟨i, tick, h⟩ := e
  exact (hc.summary slot i tick h).trans (hc'.summary slot i tick h).symm

theorem AnswersFrom.lookup_eq {sha : Sha256} {c c' : SlotHashCache}
    (hc : AnswersFrom sha window us c) (hc' : AnswersFrom sha window us c') :
    c.lookupRecentBlockhash sha = c'.lookupRecentBlockhash sha := by
  funext landedSlot maxLookback
  rw [lookupRecentBlockhash_eq, lookupRecentBlockhash_eq, hc.getLastTick_eq hc']

/-- Updates in any order give the answers of the set of updates. -/
theorem slotHashCache_order_independent (sha : Sha256) (window : ℕ) {us vs : List SlotUpdate}
    (hd : DistinctUpdates us) (hperm : us.Perm vs) :
    let c := SlotHashCache.updates window us
    let c' := SlotHashCache.updates window vs
    c.getLastTick = c'.getLastTick ∧ c.getSummary = c'.getSummary ∧
      c.lookupRecentBlockhash sha = c'.lookupRecentBlockhash sha ∧
        AnswersFrom sha window us c' := by
  have hc : AnswersFrom sha window us (SlotHashCache.updates window us) :=
    answersFrom_updates sha window hd
  have hc' : AnswersFrom sha window us (SlotHashCache.updates window vs) :=
    (answersFrom_updates sha window (hd.perm hperm)).congr fun u => hperm.mem_iff.symm
  exact ⟨hc.getLastTick_eq hc', hc.getSummary_eq hc', hc.lookup_eq hc', hc'⟩

/-- Slot 100 evicts slot 5 before or after its only update arrives. -/
theorem slotHashCache_order_independent_evicted :
    let c := SlotHashCache.updates 10 [⟨5, 0, 7, some 64⟩, ⟨100, 3, 9, some 63⟩]
    let c' := SlotHashCache.updates 10 [⟨100, 3, 9, some 63⟩, ⟨5, 0, 7, some 64⟩]
    c.getLastTick 5 = none ∧ c'.getLastTick 5 = none ∧
      c.lookupRecentBlockhash ⟨id, id⟩ = c'.lookupRecentBlockhash ⟨id, id⟩ := by
  refine ⟨by decide, by decide, ?_⟩
  exact (slotHashCache_order_independent ⟨id, id⟩ 10 ⟨by decide, by decide⟩
    (List.Perm.swap _ _ [])).2.2.1

end

end SolanaBench.FanOut
