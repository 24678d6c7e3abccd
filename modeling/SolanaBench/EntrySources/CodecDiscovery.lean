import Mathlib.Logic.Equiv.List
import SolanaBench.EntrySources.ShredStreamGrpc

/-! The choice of the codec. The first batch that decodes decides it for the life of the
process, and a batch without transactions decodes as either. -/
namespace SolanaBench.ShredStreamGrpc

/-- An encoder and the decoder that undoes it. -/
structure Codec where
  serialize : List SolanaEntry → List UInt8
  deserialize : List UInt8 → Option (List SolanaEntry)
  roundTrip : ∀ batch, deserialize (serialize batch) = some batch

def TicksOnly (batch : List SolanaEntry) : Prop := ∀ e ∈ batch, e.transactions = []

instance (batch : List SolanaEntry) : Decidable (TicksOnly batch) :=
  inferInstanceAs (Decidable (∀ e ∈ batch, e.transactions = []))

/-- The layouts diverge for the transactions only. -/
structure Codecs where
  bincode : Codec
  wincode : Codec
  agree : ∀ batch, TicksOnly batch → bincode.serialize batch = wincode.serialize batch

namespace Codecs

variable (C : Codecs)

def get : EntryCodec → Codec
  | .bincode => C.bincode
  | .wincode => C.wincode

def deserialize : Deserialize := fun codec => (C.get codec).deserialize

/-- A proxy that encodes with `codec`. -/
def wire (codec : EntryCodec) : Input → Message
  | .connect => .connect
  | .batch slot entries observedAt => .entries slot ((C.get codec).serialize entries) observedAt

end Codecs

def batch? : Input → Option (List SolanaEntry)
  | .connect => none
  | .batch _ entries _ => some entries

def batches (is : List Input) : List (List SolanaEntry) := is.filterMap batch?

/-- What the calls of `decode_entries` return, one for each message. -/
def calls (deserialize : Deserialize) : Option EntryCodec → List Message →
    List (Option (List SolanaEntry))
  | _, [] => []
  | codec, .connect :: ms => calls deserialize codec ms
  | codec, .entries _ bytes _ :: ms =>
    (decodeEntries deserialize codec bytes).1 ::
      calls deserialize (decodeEntries deserialize codec bytes).2 ms

/-- `bincode` reads a batch in the layout of `wincode`, rightly or not. -/
def Codecs.misread (C : Codecs) (batch : List SolanaEntry) : Option (List SolanaEntry) :=
  C.bincode.deserialize (C.wincode.serialize batch)

/-- Batches come in the layout of `bincode`, or `bincode` cannot read the first of them, or
it reads rightly every one that has transactions. -/
def Codecs.Discovers (C : Codecs) (codec : EntryCodec) (is : List Input) : Prop :=
  codec = .bincode ∨ (∀ batch ∈ (batches is).head?, C.misread batch = none) ∨
    ∀ batch ∈ batches is, ¬TicksOnly batch → C.misread batch = some batch

section

variable {C : Codecs} {codec : EntryCodec} {is : List Input}

/-- A batch without transactions is read rightly by either. -/
theorem misread_ticks {batch : List SolanaEntry} (h : TicksOnly batch) :
    C.misread batch = some batch := by
  unfold Codecs.misread
  rw [← C.agree batch h]
  exact C.bincode.roundTrip batch

/-- Once cached the codec is used for everything. -/
theorem calls_cached (C : Codecs) (cached codec : EntryCodec) (is : List Input) :
    calls C.deserialize (some cached) (is.map (C.wire codec)) =
      (batches is).map fun batch => C.deserialize cached ((C.get codec).serialize batch) := by
  induction is with
  | nil => rfl
  | cons i is ih =>
    cases i with
    | connect => exact ih
    | batch slot entries t =>
      simpa [calls, batches, batch?, Codecs.wire, decodeEntries] using ih

theorem calls_cached_eq (C : Codecs) (codec : EntryCodec) (is : List Input) :
    calls C.deserialize (some codec) (is.map (C.wire codec)) = (batches is).map some := by
  rw [calls_cached]
  exact List.map_congr_left fun batch _ => (C.get codec).roundTrip batch

theorem misread_all_iff (C : Codecs) (l : List (List SolanaEntry)) :
    (∀ batch ∈ l, ¬TicksOnly batch → C.misread batch = some batch) ↔
      ∀ batch ∈ l, C.misread batch = some batch := by
  refine forall₂_congr fun batch _ => ⟨fun h => ?_, fun h _ => h⟩
  by_cases hticks : TicksOnly batch
  · exact misread_ticks hticks
  · exact h hticks

/-- Every call of the process returns the batch that was encoded iff the first batch leads
to a codec that reads them all. -/
theorem calls_iff_discovers (C : Codecs) (codec : EntryCodec) (is : List Input) :
    calls C.deserialize none (is.map (C.wire codec)) = (batches is).map some ↔
      C.Discovers codec is := by
  induction is with
  | nil => simp [calls, batches, Codecs.Discovers]
  | cons i is ih =>
    cases i with
    | connect => exact ih
    | batch slot entries t =>
      have hbatches : batches (.batch slot entries t :: is) = entries :: batches is := rfl
      have hmore := calls_cached_eq C codec is
      unfold Codecs.Discovers
      rw [hbatches, misread_all_iff]
      cases codec with
      | bincode =>
        have hread : C.deserialize .bincode (C.bincode.serialize entries) = some entries :=
          C.bincode.roundTrip entries
        simp [calls, Codecs.wire, Codecs.get, decodeEntries, hread, hmore]
      | wincode =>
        have hmis : C.deserialize .bincode (C.wincode.serialize entries) = C.misread entries := rfl
        cases hfirst : C.misread entries with
        | none =>
          have hread : C.deserialize .wincode (C.wincode.serialize entries) = some entries :=
            C.wincode.roundTrip entries
          simp [calls, Codecs.wire, Codecs.get, decodeEntries, hmis, hfirst, hread, hmore]
        | some v =>
          have hrest : calls C.deserialize (some .bincode) (is.map (C.wire .wincode)) =
              (batches is).map C.misread := calls_cached C .bincode .wincode is
          simp [calls, Codecs.wire, Codecs.get, decodeEntries, hmis, hfirst, hrest]

end

/-! Two opaque layouts, not those of the crates: the number of a batch in unary, behind a first
byte that tells whether `wincode` wrote transactions. -/

instance : Encodable VersionedTransaction :=
  Encodable.ofLeftInverse (fun t => (t.signatures, t.message.map UInt8.toNat))
    (fun p => ⟨p.1, p.2.map UInt8.ofNat⟩) fun t => by
      cases t
      simp [Function.comp_def]

instance : Encodable SolanaEntry :=
  Encodable.ofLeftInverse (fun e => (e.numHashes, e.hash, e.transactions))
    (fun p => ⟨p.1, p.2.1, p.2.2⟩) fun _ => rfl

def unary (batch : List SolanaEntry) : List UInt8 := List.replicate (Encodable.encode batch) 0

def sampleCodecs : Codecs where
  bincode :=
    { serialize := fun batch => 0 :: unary batch
      deserialize := fun bytes =>
        if bytes.head? = some 0 then Encodable.decode bytes.tail.length else none
      roundTrip := fun batch => by simp [unary] }
  wincode :=
    { serialize := fun batch => (if TicksOnly batch then 0 else 1) :: unary batch
      deserialize := fun bytes => Encodable.decode bytes.tail.length
      roundTrip := fun batch => by simp [unary] }
  agree batch h := by simp [h]

theorem misread_sampleCodecs {batch : List SolanaEntry} (h : ¬TicksOnly batch) :
    sampleCodecs.misread batch = none := by simp [Codecs.misread, sampleCodecs, h]

/-- A tick decodes as `bincode`, and then the first transaction cannot be read. -/
theorem tick_locks_wrong_codec : ¬∀ (C : Codecs) (codec : EntryCodec) (is : List Input),
    calls C.deserialize none (is.map (C.wire codec)) = (batches is).map some := by
  intro h
  have htwo : ∀ tick transfer : List SolanaEntry, TicksOnly tick → TicksOnly transfer := by
    intro tick transfer htick
    by_contra htransfer
    have hread : sampleCodecs.deserialize .bincode (sampleCodecs.wincode.serialize tick) =
        some tick := misread_ticks htick
    have hlost : sampleCodecs.deserialize .bincode (sampleCodecs.wincode.serialize transfer) =
        none := misread_sampleCodecs htransfer
    have hboth := h sampleCodecs .wincode [.batch 7 tick 0, .batch 7 transfer 1]
    simp [calls, Codecs.wire, Codecs.get, decodeEntries, hread, hlost, batches, batch?] at hboth
  exact absurd (htwo [⟨12500, 1, []⟩] [⟨100, 2, [⟨[11], [0]⟩]⟩] (by decide)) (by decide)

end SolanaBench.ShredStreamGrpc
