import Mathlib.Data.List.AList
import Mathlib.Data.Nat.Notation

/-! The abort decision of the cutoff engine. A block is judged when the last of its send results
comes in, and a number of failed blocks in a row ends the run. -/
namespace SolanaBench.TxCutoff

structure AbortTracker where
  threshold : ℕ
  consecutive : ℕ := 0
  deriving DecidableEq, Repr

namespace AbortTracker

def recordBlock (t : AbortTracker) (successfulSends totalSends : ℕ) : AbortTracker :=
  if totalSends > 0 ∧ successfulSends = 0 then { t with consecutive := t.consecutive + 1 }
  else { t with consecutive := 0 }

def shouldAbort (t : AbortTracker) : Bool := decide (t.consecutive ≥ t.threshold)

end AbortTracker

structure BlockSendCounters where
  received : ℕ := 0
  successes : ℕ := 0
  total : ℕ := 0
  deriving DecidableEq, Repr

/-- The counters with one more result. -/
def BlockSendCounters.receive (c : BlockSendCounters) (wasSuccess : Bool) : BlockSendCounters :=
  { c with
    received := c.received + 1
    successes := if wasSuccess then c.successes + 1 else c.successes }

def BlockSendCounters.closed (c : BlockSendCounters) : Bool :=
  decide (c.total > 0) && decide (c.received ≥ c.total)

/-- `block_send_totals` and `abort_tracker`. -/
structure AbortLoop where
  blockSendTotals : AList (fun _ : ℕ => BlockSendCounters) := ∅
  tracker : AbortTracker

namespace AbortLoop

def register (s : AbortLoop) (blockIdx scheduledCount : ℕ) : AbortLoop :=
  { s with blockSendTotals := s.blockSendTotals.insert blockIdx ⟨0, 0, scheduledCount⟩ }

/-- The state after a result, and whether the main loop breaks. -/
def count (s : AbortLoop) (blockIdx : ℕ) (wasSuccess : Bool) : AbortLoop × Bool :=
  let counters := ((s.blockSendTotals.lookup blockIdx).getD {}).receive wasSuccess
  if counters.closed then
    let tracker := s.tracker.recordBlock counters.successes counters.total
    (⟨s.blockSendTotals.erase blockIdx, tracker⟩, tracker.shouldAbort)
  else ({ s with blockSendTotals := s.blockSendTotals.insert blockIdx counters }, false)

end AbortLoop
end SolanaBench.TxCutoff
