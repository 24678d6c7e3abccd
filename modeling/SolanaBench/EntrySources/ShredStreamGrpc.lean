import SolanaBench.EntrySources.Observation
import SolanaBench.Lib.Effect
import SolanaBench.Lib.EventMachine
import SolanaBench.Lib.SortedMap

/-! The ShredStream source behind a proxy. Each message carries one batch of entries of a
slot; the source decodes it with the codec that worked first and numbers the entries
within the slot, per connection session. -/
namespace SolanaBench.ShredStreamGrpc

/-- The signatures, and the message in its wire form. -/
structure VersionedTransaction where
  signatures : List Signature
  message : List UInt8
  deriving DecidableEq, Repr

structure SolanaEntry where
  numHashes : ℕ
  hash : Hash
  transactions : List VersionedTransaction
  deriving DecidableEq, Repr

inductive Counter
  | ssEntryDecodeError
  deriving DecidableEq, Repr

abbrev Output := Effect Counter EntryObservation

/-! ## Decoding -/

inductive EntryCodec
  | bincode | wincode
  deriving DecidableEq, Repr

/-- `deserialize::<Vec<SolanaEntry>>` of the two crates. -/
abbrev Deserialize := EntryCodec → List UInt8 → Option (List SolanaEntry)

/-- The batch, and `CODEC` after the call. -/
def decodeEntries (deserialize : Deserialize) (codec : Option EntryCodec) (bytes : List UInt8) :
    Option (List SolanaEntry) × Option EntryCodec :=
  match codec with
  | some c => (deserialize c bytes, some c)
  | none =>
    match deserialize .bincode bytes with
    | some v => (some v, some .bincode)
    | none =>
      match deserialize .wincode bytes with
      | some v => (some v, some .wincode)
      | none => (none, none)

/-! ## Numbering -/

/-- The locals of `run_once`. -/
structure Session where
  slotOffset : SortedMap ℕ U32 := ∅
  highestSlot : ℕ := 0

def Session.offset (s : Session) (slot : ℕ) : U32 := (s.slotOffset.get? slot).getD 0

/-- Only the first signature of a transaction is reported. -/
def observation (slot : ℕ) (entryIndex : U32) (entry : SolanaEntry) (observedAt : Instant) :
    EntryObservation where
  source := .shredStream
  observedAt := observedAt
  slot := slot
  entryIndex := entryIndex
  numHashes := entry.numHashes
  entryHash := entry.hash
  txCount := entry.transactions.length % 2 ^ 32
  signatures := entry.transactions.filterMap fun txn => txn.signatures.head?

def emitBatch (base : U32) (slot : ℕ) (entries : List SolanaEntry) (observedAt : Instant) :
    List Output :=
  entries.zipIdx.map fun e =>
    .send (observation slot (base + Fin.ofNat (2 ^ 32) e.2) e.1 observedAt)

/-- The map and the frontier once the batch is numbered, before the eviction. -/
def Session.advance (s : Session) (slot : ℕ) (entries : List SolanaEntry) : Session where
  slotOffset := s.slotOffset.insert slot (s.offset slot + Fin.ofNat (2 ^ 32) entries.length)
  highestSlot := if slot > s.highestSlot then slot else s.highestSlot

/-- The slot is behind the frontier of a map that has grown too large. -/
def Session.evicts (s : Session) (slot : ℕ) : Bool :=
  decide (s.slotOffset.size > 1024) && decide (slot < s.highestSlot - 512)

def Session.evict (s : Session) : Session :=
  if s.slotOffset.size > 1024 then
    { s with slotOffset := s.slotOffset.retain fun slot _ => slot ≥ s.highestSlot - 512 }
  else s

def numberBatch (s : Session) (slot : ℕ) (entries : List SolanaEntry) (observedAt : Instant) :
    Session × List Output :=
  ((s.advance slot entries).evict, emitBatch (s.offset slot) slot entries observedAt)

/-- A session begins, or a batch that was decoded arrives in it. -/
inductive Input
  | connect
  | batch (slot : ℕ) (entries : List SolanaEntry) (observedAt : Instant)

def numberer : EventMachine Session Input Output where
  step s
    | .connect => ({}, [])
    | .batch slot entries observedAt => numberBatch s slot entries observedAt

/-! ## The source -/

/-- What the process sees: `run_loop` opens a session, or the stream yields a message. -/
inductive Message
  | connect
  | entries (slot : ℕ) (bytes : List UInt8) (observedAt : Instant)

/-- `CODEC` outlives the sessions. -/
structure State where
  codec : Option EntryCodec := none
  session : Session := {}

def step (deserialize : Deserialize) (st : State) : Message → State × List Output
  | .connect => ({ st with session := {} }, [])
  | .entries slot bytes observedAt =>
    match decodeEntries deserialize st.codec bytes with
    | (none, codec) => ({ st with codec := codec }, [.fetchAdd .ssEntryDecodeError 1])
    | (some entries, codec) =>
      let r := numberBatch st.session slot entries observedAt
      (⟨codec, r.1⟩, r.2)

def source (deserialize : Deserialize) : EventMachine State Message Output where
  step := step deserialize

/-- The batches that the messages decode to. -/
def decoded (deserialize : Deserialize) : Option EntryCodec → List Message → List Input
  | _, [] => []
  | codec, .connect :: ms => .connect :: decoded deserialize codec ms
  | codec, .entries slot bytes observedAt :: ms =>
    let r := decodeEntries deserialize codec bytes
    match r.1 with
    | none => decoded deserialize r.2 ms
    | some entries => .batch slot entries observedAt :: decoded deserialize r.2 ms

/-- The source emits what the numbering makes of the decoded batches. -/
theorem sent_source_run (deserialize : Deserialize) (st : State) (ms : List Message) :
    Effect.sent ((source deserialize).run st ms).2 =
      Effect.sent (numberer.run st.session (decoded deserialize st.codec ms)).2 := by
  induction ms generalizing st with
  | nil => rfl
  | cons m ms ih =>
    rw [EventMachine.run_cons_snd, Effect.sent_append, ih]
    cases m with
    | connect => rfl
    | entries slot bytes observedAt =>
      cases hr : decodeEntries deserialize st.codec bytes with
      | mk r codec =>
        cases r <;> simp [decoded, source, step, hr, numberer]

end SolanaBench.ShredStreamGrpc
