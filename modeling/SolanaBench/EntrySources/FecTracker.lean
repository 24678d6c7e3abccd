import Mathlib.Data.List.AList
import Mathlib.Order.Fin.Basic
import SolanaBench.EntrySources.Observation
import SolanaBench.Lib.AListRetain
import SolanaBench.Lib.Effect
import SolanaBench.Lib.EventMachine
import SolanaBench.Lib.SortedMap

/-! The FEC sets of the UDP ShredStream path. Shreds are collected under their slot and set
until the data shreds are as many as the terminating one announces. -/
namespace SolanaBench.ShredStreamUdp

inductive ShredType
  | data | code
  deriving DecidableEq, Repr

/-- What the tracker and the worker read of a parsed shred. -/
structure Shred where
  slot : ℕ
  fecSetIndex : U32
  index : U32
  shredType : ShredType
  dataComplete : Bool
  lastInSlot : Bool
  payload : List UInt8
  deriving DecidableEq, Repr

structure RawShredPacket where
  bytes : List UInt8
  receivedAt : Instant
  deriving DecidableEq, Repr

/-- `Shred::new_from_serialized_shred`. -/
abbrev ParseShred := List UInt8 → Option Shred

abbrev FecKey := ℕ × U32

def Shred.key (s : Shred) : FecKey := (s.slot, s.fecSetIndex)

/-- It carries one of the two terminator flags. -/
def Shred.terminates (s : Shred) : Bool := s.lastInSlot || s.dataComplete

structure FecSetReady where
  slot : ℕ
  fecSetIndex : U32
  firstShredAt : Instant
  completedAt : Instant
  dataShreds : List Shred
  codingShreds : List Shred
  deriving DecidableEq, Repr

inductive Counter
  | ssShredParseError | ssFecSetTimeout | ssDeshredError | ssEntryDecodeError
  deriving DecidableEq, Repr

/-- The hash maps are kept sorted by shred index: the data shreds are sorted before they
are handed on, and the coding shreds come in an arbitrary order. -/
structure FecSetState where
  firstShredAt : Option Instant := none
  data : SortedMap U32 Shred := ∅
  coding : SortedMap U32 Shred := ∅
  expectedDataCount : Option U32 := none

/-- The entry of the set once the shred is filed. -/
def FecSetState.file (st : FecSetState) (shred : Shred) (receivedAt : Instant) : FecSetState :=
  let st := if st.firstShredAt.isNone then { st with firstShredAt := some receivedAt } else st
  match shred.shredType with
  | .data =>
    { st with
      expectedDataCount :=
        if shred.terminates then some (shred.index - shred.fecSetIndex + 1)
        else st.expectedDataCount
      data := st.data.insert shred.index shred }
  | .code => { st with coding := st.coding.insert shred.index shred }

def FecSetState.dataComplete (st : FecSetState) : Bool :=
  (st.expectedDataCount.map fun n => decide (n.val ≤ st.data.size % 2 ^ 32)).getD false

/-- `first_shred_at` is set when the first shred is filed. -/
def FecSetState.ready (st : FecSetState) (key : FecKey) (completedAt : Instant) : FecSetReady where
  slot := key.1
  fecSetIndex := key.2
  firstShredAt := st.firstShredAt.getD completedAt
  completedAt := completedAt
  dataShreds := st.data.entries.map Prod.snd
  codingShreds := st.coding.entries.map Prod.snd

abbrev FecTracker := AList fun _ : FecKey => FecSetState

namespace FecTracker

/-- A set that is returned, or a counter that is bumped. -/
abbrev Output := Effect Counter FecSetReady

def ingest (parse : ParseShred) (sets : FecTracker) (packet : RawShredPacket)
    (completedAt : Instant) : FecTracker × List Output :=
  match parse packet.bytes with
  | none => (sets, [.fetchAdd .ssShredParseError 1])
  | some shred =>
    let st := ((sets.lookup shred.key).getD {}).file shred packet.receivedAt
    if st.dataComplete then (sets.erase shred.key, [.send (st.ready shred.key completedAt)])
    else (sets.insert shred.key st, [])

def alive (now : Instant) (maxAge : Duration) (st : FecSetState) : Bool :=
  match st.firstShredAt with
  | some t => decide (Instant.saturatingDurationSince now t < maxAge)
  | none => true

def evictOlderThan {ε : Type} (sets : FecTracker) (now : Instant) (maxAge : Duration) :
    FecTracker × List (Effect Counter ε) :=
  (sets.retain fun _ st => alive now maxAge st,
    (sets.entries.filter fun e => !alive now maxAge e.2).map fun _ => .fetchAdd .ssFecSetTimeout 1)

/-- Packets one after the other, each with the clock reading at its completion. -/
def machine (parse : ParseShred) : EventMachine FecTracker (RawShredPacket × Instant) Output where
  step sets i := ingest parse sets i.1 i.2

end FecTracker
end SolanaBench.ShredStreamUdp
