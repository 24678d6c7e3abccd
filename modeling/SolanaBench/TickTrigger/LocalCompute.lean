import SolanaBench.EntrySources.Observation
import SolanaBench.Lib.SortedMap

/-! Local computation of the next durable nonce: the last entry hash of each
recent slot, and the look-back from a landing slot. The hash function
`sha256("DURABLE_NONCE" || _)` is a parameter. -/
namespace SolanaBench.TickTrigger.LocalCompute

structure SlotHashCache where
  inner : SortedMap ℕ Hash := ∅
  window : ℕ

namespace SlotHashCache

/-- The eviction loop removes first keys below the cutoff. -/
def recordEntry (c : SlotHashCache) (slot : ℕ) (entryHash : Hash) : SlotHashCache :=
  let inner := c.inner.insert slot entryHash
  match inner.lastKeyValue with
  | some e =>
    if e.1 > c.window then
      { c with inner := inner.dropWhile fun k => decide (k < e.1 - c.window) }
    else { c with inner := inner }
  | none => { c with inner := inner }

def recordSlotComplete (c : SlotHashCache) (slot : ℕ) (lastEntryHash : Hash) : SlotHashCache :=
  c.recordEntry slot lastEntryHash

/-- `for back in 1..=max_lookback`: the first cached slot, its hash and the next nonce. -/
def lookBack (computeNextDurableNonce : Hash → Hash) (inner : SortedMap ℕ Hash)
    (landedSlot : ℕ) : List ℕ → Option (ℕ × Hash × Hash)
  | [] => none
  | back :: backs =>
    if landedSlot < back then none
    else
      match inner.get? (landedSlot - back) with
      | some h => some (landedSlot - back, h, computeNextDurableNonce h)
      | none => lookBack computeNextDurableNonce inner landedSlot backs

def nextNonceForLandedSlot (computeNextDurableNonce : Hash → Hash) (c : SlotHashCache)
    (landedSlot maxLookback : ℕ) : Option (ℕ × Hash × Hash) :=
  lookBack computeNextDurableNonce c.inner landedSlot (List.range' 1 maxLookback)

end SlotHashCache
end SolanaBench.TickTrigger.LocalCompute
