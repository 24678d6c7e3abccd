import Mathlib.Data.List.Sort
import SolanaBench.EntrySources.Observation
import SolanaBench.Lib.AListRetain
import SolanaBench.Lib.EventMachine

/-! The correlator of the entry comparator. Observations of the two sources are paired by slot
and entry hash, and what stays unpaired is swept after a deadline. -/
namespace SolanaBench.EntryComparator

inductive Source
  | both | ysOnly | ssOnly
  deriving DecidableEq, Repr

structure DiffRecord where
  slot : ℕ
  entryIndex : U32
  numHashes : ℕ
  source : Source
  ysObservedNs : Option ℕ
  ssFirstShredNs : Option ℕ
  ssFecCompleteNs : Option ℕ
  ysHash : Option Hash
  ssHash : Option Hash
  ysTxCount : Option ℕ
  ssTxCount : Option ℕ
  hashMatch : Bool
  sigSetMatch : Option Bool
  leaderPubkey : Option Pubkey
  ysSignatures : List Signature
  ssSignatures : List Signature
  deriving DecidableEq, Repr

structure CorrelatorConfig where
  anchor : Instant
  deadline : Duration
  leaderLookup : ℕ → Option Pubkey

structure MatchState where
  yellowstone : Option EntryObservation := none
  shredstream : Option EntryObservation := none
  insertedAt : Instant
  deriving DecidableEq, Repr

abbrev EntryKey := ℕ × Hash

def entryKey (obs : EntryObservation) : EntryKey := (obs.slot, obs.entryHash)

/-- `t.duration_since(anchor).as_nanos() as u64`. -/
def sinceAnchor (anchor t : Instant) : ℕ := Instant.saturatingDurationSince t anchor % 2 ^ 64

/-- Two empty sets are not compared. -/
def sigSetMatch (ys ss : EntryObservation) : Option Bool :=
  if !ys.signatures.isEmpty && !ss.signatures.isEmpty then
    some (ys.signatures.insertionSort (· ≤ ·) == ss.signatures.insertionSort (· ≤ ·))
  else none

namespace MatchState

def put (st : MatchState) (obs : EntryObservation) : MatchState :=
  match obs.source with
  | .yellowstone => { st with yellowstone := some obs }
  | .shredStream => { st with shredstream := some obs }

def paired (st : MatchState) : Bool := st.yellowstone.isSome && st.shredstream.isSome

def source (st : MatchState) : Source :=
  match st.yellowstone, st.shredstream with
  | some _, some _ => .both
  | some _, none => .ysOnly
  | none, _ => .ssOnly

/-- The record with the fields taken from `first`, the observation of Yellowstone if there is
one. -/
def record (st : MatchState) (cfg : CorrelatorConfig) (first : EntryObservation) : DiffRecord where
  slot := first.slot
  entryIndex := first.entryIndex
  numHashes := first.numHashes
  source := st.source
  ysObservedNs := st.yellowstone.map fun y => sinceAnchor cfg.anchor y.observedAt
  ssFirstShredNs := (st.shredstream.bind EntryObservation.firstShredAt).map (sinceAnchor cfg.anchor)
  ssFecCompleteNs := st.shredstream.map fun s => sinceAnchor cfg.anchor s.observedAt
  ysHash := st.yellowstone.map EntryObservation.entryHash
  ssHash := st.shredstream.map EntryObservation.entryHash
  ysTxCount := st.yellowstone.map EntryObservation.txCount
  ssTxCount := st.shredstream.map EntryObservation.txCount
  hashMatch :=
    match st.yellowstone, st.shredstream with
    | some y, some s => y.entryHash == s.entryHash
    | _, _ => false
  sigSetMatch := st.yellowstone.bind fun y => st.shredstream.bind fun s => sigSetMatch y s
  leaderPubkey := cfg.leaderLookup first.slot
  ysSignatures := (st.yellowstone.map EntryObservation.signatures).getD []
  ssSignatures := (st.shredstream.map EntryObservation.signatures).getD []

/-- Without an observation the code is unreachable. -/
def emit (st : MatchState) (cfg : CorrelatorConfig) : List DiffRecord :=
  ((st.yellowstone.or st.shredstream).map (st.record cfg)).toList

def due (now : Instant) (deadline : Duration) (st : MatchState) : Bool :=
  decide (Instant.saturatingDurationSince now st.insertedAt ≥ deadline)

end MatchState

abbrev Correlator := AList fun _ : EntryKey => MatchState

namespace Correlator

variable (cfg : CorrelatorConfig)

/-- `now` is the instant at which a new key is inserted. -/
def handle (map : Correlator) (obs : EntryObservation) (now : Instant) :
    Correlator × List DiffRecord :=
  let st := ((map.lookup (entryKey obs)).getD { insertedAt := now }).put obs
  if st.paired then (map.erase (entryKey obs), st.emit cfg)
  else (map.insert (entryKey obs) st, [])

def sweep (map : Correlator) (now : Instant) (deadline : Duration) :
    Correlator × List DiffRecord :=
  (map.retain fun _ st => !st.due now deadline,
    map.entries.flatMap fun e => if e.2.due now deadline then e.2.emit cfg else [])

end Correlator

/-- What the loop does next: an observation from either channel, or a sweep. -/
inductive Input
  | observe (obs : EntryObservation) (now : Instant)
  | sweep (now : Instant)
  deriving DecidableEq, Repr

def correlator (cfg : CorrelatorConfig) : EventMachine Correlator Input DiffRecord where
  step map
    | .observe obs now => map.handle cfg obs now
    | .sweep now => map.sweep cfg now cfg.deadline

/-- The records of a run that is shut down at `now`. -/
def runLoop (cfg : CorrelatorConfig) (is : List Input) (now : Instant) : List DiffRecord :=
  let r := (correlator cfg).run ∅ is
  r.2 ++ (r.1.sweep cfg now 0).2

end SolanaBench.EntryComparator
