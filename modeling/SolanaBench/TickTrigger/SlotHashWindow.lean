import Mathlib.Data.List.Induction
import Mathlib.Order.Bounds.Defs
import SolanaBench.Lib.RollingWindow
import SolanaBench.TickTrigger.LocalCompute

/-! What the slot hash cache holds after any calls, in any order of the slots, and what the
look-back finds in it. -/
namespace SolanaBench.TickTrigger.LocalCompute

/-- A call that writes the cache. -/
inductive Record
  | entry (slot : ℕ) (entryHash : Hash)
  | slotComplete (slot : ℕ) (lastEntryHash : Hash)
  deriving DecidableEq, Repr

namespace Record

def slot : Record → ℕ
  | .entry slot _ => slot
  | .slotComplete slot _ => slot

def hash : Record → Hash
  | .entry _ entryHash => entryHash
  | .slotComplete _ lastEntryHash => lastEntryHash

end Record

namespace SlotHashCache

def record (c : SlotHashCache) : Record → SlotHashCache
  | .entry slot entryHash => c.recordEntry slot entryHash
  | .slotComplete slot lastEntryHash => c.recordSlotComplete slot lastEntryHash

theorem record_eq (c : SlotHashCache) (r : Record) : c.record r = c.recordEntry r.slot r.hash := by
  cases r <;> rfl

/-- The cache after some calls. -/
def records (window : ℕ) (rs : List Record) : SlotHashCache :=
  rs.foldl record { window }

theorem records_snoc (window : ℕ) (rs : List Record) (r : Record) :
    records window (rs ++ [r]) = (records window rs).recordEntry r.slot r.hash := by
  rw [records, List.foldl_append, ← record_eq]
  rfl

end SlotHashCache

/-! ## What should be kept -/

/-- The hash that was written last for a slot. -/
def written (rs : List Record) (slot : ℕ) : Option Hash :=
  ((rs.filter fun r => decide (r.slot = slot)).getLast?).map Record.hash

/-- The highest slot that was ever recorded. -/
def maxSlot (rs : List Record) : ℕ := rs.foldl (fun top r => max top r.slot) 0

/-- The slots from the window below the highest one on. -/
def kept (window : ℕ) (rs : List Record) (slot : ℕ) : Option Hash :=
  if maxSlot rs - window ≤ slot then written rs slot else none

/-- An answer about the slots from `lo` to below `hi`: the greatest one with a hash, its hash
and the nonce that follows it. -/
def IsNextNonce (computeNextDurableNonce : Hash → Hash) (hashes : ℕ → Option Hash) (lo hi : ℕ) :
    Option (ℕ × Hash × Hash) → Prop
  | some (slot, hash, next) => IsGreatest {t | lo ≤ t ∧ t < hi ∧ (hashes t).isSome} slot ∧
      hashes slot = some hash ∧ next = computeNextDurableNonce hash
  | none => ∀ t, lo ≤ t → t < hi → hashes t = none

section

variable {rs : List Record} {r : Record} {k window : ℕ}

theorem written_snoc : written (rs ++ [r]) k = if k = r.slot then some r.hash else written rs k := by
  unfold written
  rw [List.filter_append]
  by_cases hk : r.slot = k
  · simp [hk]
  · have hk' : ¬k = r.slot := fun h => hk h.symm
    simp [hk, hk']

theorem written_eq_value (rs : List Record) (k : ℕ) :
    written rs k = RollingWindow.value Record.slot (fun _ r => r.hash) rs k := by
  induction rs using List.reverseRecOn with
  | nil => rfl
  | append_singleton rs r ih => rw [written_snoc, RollingWindow.value_snoc, ih]

/-! ## The cache -/

theorem recordEntry_eq_write (c : SlotHashCache) (r : Record) :
    c.recordEntry r.slot r.hash =
      ⟨RollingWindow.write Record.slot (fun _ r => r.hash) c.window c.inner r, c.window⟩ := by
  unfold SlotHashCache.recordEntry RollingWindow.write RollingWindow.evict
  dsimp only
  cases (c.inner.insert r.slot r.hash).lastKeyValue with
  | none => rfl
  | some e => dsimp only; split <;> rfl

theorem records_eq_writes (window : ℕ) (rs : List Record) :
    SlotHashCache.records window rs =
      ⟨RollingWindow.writes Record.slot (fun _ r => r.hash) window rs, window⟩ := by
  induction rs using List.reverseRecOn with
  | nil => rfl
  | append_singleton rs r ih =>
    rw [SlotHashCache.records_snoc, ih, recordEntry_eq_write, RollingWindow.writes_snoc]

/-- The cache holds what was written last for each slot of the window. -/
theorem get?_records (window : ℕ) (rs : List Record) (k : ℕ) :
    (SlotHashCache.records window rs).inner.get? k = kept window rs k := by
  rw [records_eq_writes]
  dsimp only
  rw [RollingWindow.get?_writes, ← written_eq_value]
  rfl

/-! ## The look-back -/

theorem lookBack_eq (computeNextDurableNonce : Hash → Hash) (inner : SortedMap ℕ Hash)
    (landedSlot : ℕ) (backs : List ℕ) :
    SlotHashCache.lookBack computeNextDurableNonce inner landedSlot backs =
      (RollingWindow.lookBack inner.get? landedSlot backs).map
        fun e => (e.1, e.2, computeNextDurableNonce e.2) := by
  induction backs with
  | nil => rfl
  | cons back backs ih =>
    unfold SlotHashCache.lookBack RollingWindow.lookBack
    split
    · rfl
    · split <;> simp_all

theorem isNextNonce_of_isNearest (computeNextDurableNonce : Hash → Hash) {hashes : ℕ → Option Hash}
    {lo hi : ℕ} {answer : Option (ℕ × Hash)}
    (h : RollingWindow.IsNearest hashes lo hi answer) :
    IsNextNonce computeNextDurableNonce hashes lo hi
      (answer.map fun e => (e.1, e.2, computeNextDurableNonce e.2)) := by
  cases answer with
  | none => exact h
  | some e => exact ⟨h.1, h.2, rfl⟩

/-- After any calls the cache holds what was written last for each slot of the window, and the
look-back answers from the greatest of them before the landing slot. -/
theorem cache_window (computeNextDurableNonce : Hash → Hash) (window : ℕ) (rs : List Record) :
    (∀ k, (SlotHashCache.records window rs).inner.get? k = kept window rs k) ∧
      ∀ landedSlot maxLookback, IsNextNonce computeNextDurableNonce (kept window rs)
        (landedSlot - maxLookback) landedSlot
        ((SlotHashCache.records window rs).nextNonceForLandedSlot computeNextDurableNonce
          landedSlot maxLookback) := by
  refine ⟨get?_records window rs, fun landedSlot maxLookback => ?_⟩
  have hnear := RollingWindow.lookBack_isNearest (SlotHashCache.records window rs).inner.get?
    landedSlot maxLookback
  unfold SlotHashCache.nextNonceForLandedSlot
  rw [lookBack_eq, ← funext (get?_records window rs)]
  exact isNextNonce_of_isNearest computeNextDurableNonce hnear

/-- Slot 100 evicts slot 5 from a window of 10, and the look-back from slot 6 finds nothing
although slot 5 was recorded. -/
theorem evicted_slot_not_found :
    let rs := [Record.entry 5 50, Record.entry 100 90]
    written rs 5 = some 50 ∧
      ¬IsNextNonce id (written rs) (6 - 1) 6
        ((SlotHashCache.records 10 rs).nextNonceForLandedSlot id 6 1) := by
  refine ⟨by decide, fun h => ?_⟩
  have hnone := h 5 (by decide) (by decide)
  exact absurd hnone (by decide)

end

end SolanaBench.TickTrigger.LocalCompute
