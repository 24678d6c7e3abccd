import SolanaBench.EntrySources.FecTracker
import SolanaBench.EntrySources.ShredStreamGrpc

/-! The deshred worker of the UDP ShredStream path. It feeds packets to the tracker, turns
each set that is returned into entries, and numbers these by a running offset of the slot. -/
namespace SolanaBench.ShredStreamUdp

open ShredStreamGrpc (SolanaEntry)

/-- `Shredder::deshred`. -/
abbrev Deshredder := List (List UInt8) → Option (List UInt8)

/-- `wincode::deserialize::<Vec<Entry>>`. -/
abbrev DecodeEntries := List UInt8 → Option (List SolanaEntry)

abbrev Output := Effect Counter EntryObservation

def observation (ready : FecSetReady) (entryIndex : U32) (entry : SolanaEntry) :
    EntryObservation where
  source := .shredStream
  observedAt := ready.completedAt
  slot := ready.slot
  entryIndex := entryIndex
  numHashes := entry.numHashes
  entryHash := entry.hash
  txCount := entry.transactions.length % 2 ^ 32
  signatures := entry.transactions.filterMap fun txn => txn.signatures.head?
  firstShredAt := some ready.firstShredAt

/-- The offsets after the call, and what it does. -/
def emitEntries (deshred : Deshredder) (decode : DecodeEntries) (ready : FecSetReady)
    (slotOffset : SortedMap ℕ U32) : SortedMap ℕ U32 × List Output :=
  match deshred (ready.dataShreds.map Shred.payload) with
  | none => (slotOffset, [.fetchAdd .ssDeshredError 1])
  | some bytes =>
    match decode bytes with
    | none => (slotOffset, [.fetchAdd .ssEntryDecodeError 1])
    | some entries =>
      let baseIndex := (slotOffset.get? ready.slot).getD 0
      (slotOffset.insert ready.slot (baseIndex + Fin.ofNat (2 ^ 32) entries.length),
        entries.zipIdx.map fun e =>
          .send (observation ready (baseIndex + Fin.ofNat (2 ^ 32) e.2) e.1))

/-- 500 ms. -/
def EVICT_INTERVAL : Duration := 500000000

/-- 2 s. -/
def MAX_AGE : Duration := 2000000000

/-- The locals of `run_loop`. -/
structure Worker where
  tracker : FecTracker := ∅
  slotEntryOffset : SortedMap ℕ U32 := ∅
  highestSlot : ℕ := 0
  lastEvict : Instant

/-- A packet, with the clock readings taken while it is handled. -/
structure Input where
  packet : RawShredPacket
  completedAt : Instant
  now : Instant
  deriving DecidableEq, Repr

namespace Worker

def offset (w : Worker) (slot : ℕ) : U32 := (w.slotEntryOffset.get? slot).getD 0

/-- What the tracker gives out: a counter it has bumped, or a set that the loop handles. -/
def handle (deshred : Deshredder) (decode : DecodeEntries) (w : Worker) :
    FecTracker.Output → Worker × List Output
  | .send ready =>
    let emission := emitEntries deshred decode ready w.slotEntryOffset
    ({ w with
        highestSlot := if ready.slot > w.highestSlot then ready.slot else w.highestSlot
        slotEntryOffset := emission.1 }, emission.2)
  | .fetchAdd counter n => (w, [.fetchAdd counter n])
  | .fetchMin counter n => (w, [.fetchMin counter n])
  | .fetchMax counter n => (w, [.fetchMax counter n])

/-- One after the other; `ingest` gives out one thing at most. -/
def handling (deshred : Deshredder) (decode : DecodeEntries) :
    EventMachine Worker FecTracker.Output Output where
  step := handle deshred decode

def ingest (parse : ParseShred) (deshred : Deshredder) (decode : DecodeEntries) (w : Worker)
    (i : Input) : Worker × List Output :=
  let r := w.tracker.ingest parse i.packet i.completedAt
  (handling deshred decode).run { w with tracker := r.1 } r.2

/-- It is time to evict. -/
def evictsAt (w : Worker) (now : Instant) : Bool :=
  decide (Instant.saturatingDurationSince now w.lastEvict > EVICT_INTERVAL)

def pruned (w : Worker) : SortedMap ℕ U32 :=
  if w.slotEntryOffset.size > 2048 then
    w.slotEntryOffset.retain fun slot _ => decide (slot ≥ w.highestSlot - 512)
  else w.slotEntryOffset

def evict (w : Worker) (now : Instant) : Worker × List Output :=
  let r := w.tracker.evictOlderThan now MAX_AGE
  ({ w with tracker := r.1, slotEntryOffset := w.pruned, lastEvict := now }, r.2)

/-- The worker. -/
def machine (parse : ParseShred) (deshred : Deshredder) (decode : DecodeEntries) :
    EventMachine Worker Input Output where
  step w i :=
    let r := w.ingest parse deshred decode i
    if r.1.evictsAt i.now then
      let e := r.1.evict i.now
      (e.1, r.2 ++ e.2)
    else r

end Worker
end SolanaBench.ShredStreamUdp
