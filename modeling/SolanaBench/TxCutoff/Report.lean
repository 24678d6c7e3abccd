import Mathlib.Algebra.GroupWithZero.Nat
import Mathlib.Algebra.Order.Floor.Semiring
import Mathlib.Data.Rat.Floor
import SolanaBench.Lib.SortedMap
import SolanaBench.TxCutoff.Tracker

/-! The records of the transaction cutoff bench, and what the report makes of them. -/
namespace SolanaBench.TxCutoff

inductive InclusionKind
  | target
  | late (offset : ℕ)
  | dropped
  | pending
  | sendError
  deriving DecidableEq, Repr

/-- The text form of a hash stands for it. -/
structure TxRecord where
  blockIdx : ℕ
  blockNum : ℕ
  blockHash : ℕ
  slotMs : ℕ
  sampleIdx : ℕ
  wallet : String
  txHash : Option TxHash
  nonce : ℕ
  targetUnixMs : ℤ
  sentAtUnixMs : ℤ
  wakeJitterUs : ℕ
  rpcRttUs : ℕ
  sendResult : String
  inclusion : InclusionKind
  includedBlock : Option ℕ
  deriving DecidableEq, Repr

/-- The counters of a row. -/
structure SlotStats where
  slotMs : ℕ
  sent : ℕ := 0
  includedTarget : ℕ := 0
  includedLate : ℕ := 0
  dropped : ℕ := 0
  errors : ℕ := 0
  deriving DecidableEq, Repr

/-- Sends are counted with the first record of a transaction, outcomes with the second. -/
def SlotStats.count (s : SlotStats) : InclusionKind → SlotStats
  | .pending => { s with sent := s.sent + 1 }
  | .sendError => { s with sent := s.sent + 1, errors := s.errors + 1 }
  | .target => { s with includedTarget := s.includedTarget + 1 }
  | .late _ => { s with includedLate := s.includedLate + 1 }
  | .dropped => { s with dropped := s.dropped + 1 }

abbrev SlotAggregator := SortedMap ℕ SlotStats

namespace SlotAggregator

def ingest (agg : SlotAggregator) (rec : TxRecord) : SlotAggregator :=
  agg.insert rec.slotMs (((agg.get? rec.slotMs).getD { slotMs := rec.slotMs }).count rec.inclusion)

def slot (agg : SlotAggregator) (slotMs : ℕ) : Option SlotStats := agg.get? slotMs

def slotsOrdered (agg : SlotAggregator) : List SlotStats := agg.entries.map fun e => e.2

end SlotAggregator

/-- The share of the sends that were included in the target block, in percent. -/
def SlotStats.pct (s : SlotStats) : ℚ :=
  if s.sent > 0 then (s.includedTarget : ℚ) / s.sent * 100 else 0

/-- `(pct / 100.0 * 30.0) as usize`, in exact arithmetic. -/
def SlotStats.barLen (s : SlotStats) : ℕ := ⌊s.pct / 100 * 30⌋₊

end SolanaBench.TxCutoff
