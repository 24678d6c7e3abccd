import Mathlib.Data.List.AList
import SolanaBench.EntrySources.Observation
import SolanaBench.Lib.Effect
import SolanaBench.Lib.EventMachine
import SolanaBench.Lib.SortedMap

/-! The two-source entry merger: first-seen wins, keyed by `(slot, entry_hash)`,
with a dedup window that trails the highest slot seen. -/
namespace SolanaBench.TickTrigger

structure MergedEntry where
  observation : EntryObservation
  firstSeenSource : SourceKind
  deriving DecidableEq, Repr

namespace Merger

/-- How many slots of dedup history are kept. -/
def DEDUP_WINDOW_SLOTS : ℕ := 200

inductive Counter
  | ssReceived | ysReceived | ssFirst | ysFirst | confirmedByBoth
  | confirmLatencySumNs | confirmLatencyMinNs | confirmLatencyMaxNs | duplicates
  deriving DecidableEq, Repr

abbrev Output := Effect Counter MergedEntry

abbrev Key := ℕ × Hash

inductive DedupState
  | primary (firstSource : SourceKind) (firstSeenAt : Instant)
  | confirmed
  deriving DecidableEq, Repr

/-- The three variables of the merger loop. -/
structure State where
  state : AList (fun _ : Key => DedupState) := ∅
  slotIndex : SortedMap ℕ (List Hash) := ∅
  maxSlot : ℕ := 0

def firstCounter : SourceKind → Counter
  | .shredStream => .ssFirst
  | .yellowstone => .ysFirst

def receivedCounter : SourceKind → Counter
  | .shredStream => .ssReceived
  | .yellowstone => .ysReceived

def recordConfirmLatency (deltaNs : ℕ) : List Output :=
  [.fetchAdd .confirmedByBoth 1, .fetchAdd .confirmLatencySumNs deltaNs,
    .fetchMin .confirmLatencyMinNs deltaNs, .fetchMax .confirmLatencyMaxNs deltaNs]

/-- The entry-API match of `process`. -/
def matchEntry (st : State) (obs : EntryObservation) (source : SourceKind) : State × List Output :=
  let key : Key := (obs.slot, obs.entryHash)
  match st.state.lookup key with
  | none =>
    ({ st with
        state := st.state.insert key (.primary source obs.observedAt)
        slotIndex := st.slotIndex.insert obs.slot
          ((st.slotIndex.get? obs.slot).getD [] ++ [obs.entryHash]) },
      [.fetchAdd (firstCounter source) 1, .send ⟨obs, source⟩])
  | some (.primary firstSource firstSeenAt) =>
    if firstSource ≠ source then
      ({ st with state := st.state.insert key .confirmed },
        recordConfirmLatency
          (min (Instant.saturatingDurationSince obs.observedAt firstSeenAt) U64.MAX))
    else (st, [.fetchAdd .duplicates 1])
  | some .confirmed => (st, [.fetchAdd .duplicates 1])

/-- Drop one expired slot and exactly its own keys. -/
def expire (st : State) (s : ℕ) : State :=
  match st.slotIndex.get? s with
  | none => st
  | some hashes =>
    { st with
      slotIndex := st.slotIndex.erase s
      state := hashes.foldl (fun m h => m.erase (s, h)) st.state }

/-- The eviction at the end of `process`; keys are visited in order up to the cutoff. -/
def evict (st : State) (slot : ℕ) : State :=
  if slot > st.maxSlot then
    let st := { st with maxSlot := slot }
    if st.maxSlot > DEDUP_WINDOW_SLOTS then
      let cutoff := st.maxSlot - DEDUP_WINDOW_SLOTS
      (st.slotIndex.keys.takeWhile (fun s => decide (s < cutoff))).foldl expire st
    else st
  else st

def process (st : State) (obs : EntryObservation) (source : SourceKind) : State × List Output :=
  let r := matchEntry st obs source
  (evict r.1 obs.slot, r.2)

/-- One iteration of `run_loop`: a message of either channel is counted and processed. -/
def machine : EventMachine State (EntryObservation × SourceKind) Output where
  step st i :=
    let r := process st i.1 i.2
    (r.1, .fetchAdd (receivedCounter i.2) 1 :: r.2)

end Merger
end SolanaBench.TickTrigger
