import SolanaBench.EntrySources.Observation
import SolanaBench.Lib.SortedMap

/-! The slot hash cache of the fan-out bench: the last entry and the last tick seen of
each recent slot, and the look-back that extrapolates missing ticks. The SHA-256 hashes
are parameters. -/
namespace SolanaBench.FanOut

def HASHES_PER_TICK : ℕ := 62_500
def TICKS_PER_SLOT : ℕ := 64

/-- `sha256(h)`, and `sha256("DURABLE_NONCE" || h)`. -/
structure Sha256 where
  hash : Hash → Hash
  computeNextDurableNonce : Hash → Hash

def Sha256.chainHashForward (sha : Sha256) (start : Hash) (iterations : ℕ) : Hash :=
  sha.hash^[iterations] start

structure SlotInfo where
  maxEntryIndex : ℕ := 0
  lastEntryHash : Hash := 0
  lastTickIdx : Option ℕ := none
  lastTickHash : Option Hash := none
  deriving DecidableEq, Repr

structure SlotHashCache where
  inner : SortedMap ℕ SlotInfo := ∅
  window : ℕ

structure LookupResult where
  sourceSlot : ℕ
  anchorTick : ℕ
  hash : Hash
  chainedHashes : ℕ
  deriving DecidableEq, Repr

/-- The higher entry index and the higher tick are kept. -/
def SlotInfo.update (info : SlotInfo) (entryIndex : ℕ) (entryHash : Hash) (tickIdx : Option ℕ) :
    SlotInfo :=
  let info :=
    if entryIndex > info.maxEntryIndex ∨ info.maxEntryIndex = 0 then
      { info with maxEntryIndex := entryIndex, lastEntryHash := entryHash }
    else info
  match tickIdx with
  | none => info
  | some t =>
    if info.lastTickIdx.all fun cur => decide (t > cur) then
      { info with lastTickIdx := some t, lastTickHash := some entryHash }
    else info

namespace SlotHashCache

def update (c : SlotHashCache) (slot entryIndex : ℕ) (entryHash : Hash) (tickIdx : Option ℕ) :
    SlotHashCache :=
  let info := (c.inner.get? slot).getD {}
  let inner := c.inner.insert slot (info.update entryIndex entryHash tickIdx)
  match inner.lastKeyValue with
  | some e =>
    if e.1 > c.window then
      { c with inner := inner.dropWhile fun k => decide (k < e.1 - c.window) }
    else { c with inner := inner }
  | none => { c with inner := inner }

def getLastTick (c : SlotHashCache) (slot : ℕ) : Option (ℕ × Hash) :=
  match c.inner.get? slot with
  | some ⟨_, _, some tick, some hash⟩ => some (tick, hash)
  | _ => none

def getSummary (c : SlotHashCache) (slot : ℕ) : Option (ℕ × Option ℕ × Hash) :=
  (c.inner.get? slot).map fun info => (info.maxEntryIndex, info.lastTickIdx, info.lastEntryHash)

/-- The answer from the slot's last seen tick; missing final ticks are chained on. -/
def lookupResult (sha : Sha256) (slot tickIdx : ℕ) (tickHash : Hash) : LookupResult :=
  if tickIdx ≥ TICKS_PER_SLOT then ⟨slot, tickIdx, tickHash, 0⟩
  else
    let chained := (TICKS_PER_SLOT - tickIdx) * HASHES_PER_TICK
    ⟨slot, tickIdx, sha.chainHashForward tickHash chained, chained⟩

/-- `for back in 1..=max_lookback`, leaving the function where the slot would be negative. -/
def lookBack (sha : Sha256) (c : SlotHashCache) (landedSlot : ℕ) : List ℕ → Option LookupResult
  | [] => none
  | back :: backs =>
    if landedSlot < back then none
    else
      match c.getLastTick (landedSlot - back) with
      | some t => some (lookupResult sha (landedSlot - back) t.1 t.2)
      | none => lookBack sha c landedSlot backs

def lookupRecentBlockhash (sha : Sha256) (c : SlotHashCache) (landedSlot maxLookback : ℕ) :
    Option LookupResult :=
  lookBack sha c landedSlot (List.range' 1 maxLookback)

end SlotHashCache
end SolanaBench.FanOut
