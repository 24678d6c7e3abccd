import Mathlib.Algebra.GroupWithZero.Nat
import Mathlib.Data.Nat.Notation
import Mathlib.Data.Fin.Basic

/-! Entry observations as the two sources deliver them, with the fixed-width
arithmetic that the consumers share. An `Instant` is a monotone clock reading in
nanoseconds, and a difference of instants saturates at zero. -/
namespace SolanaBench

abbrev Instant := ℕ
abbrev Duration := ℕ

/-- A 32-byte value read as a big-endian number; `0` is `Hash::default()`. -/
abbrev Hash := ℕ
abbrev Pubkey := ℕ
abbrev Signature := ℕ

def base58Alphabet : List Char :=
  "123456789ABCDEFGHJKLMNPQRSTUVWXYZabcdefghijkmnopqrstuvwxyz".toList

/-- `Pubkey::from_str`: the number that the base 58 digits write. -/
def Pubkey.fromStr (s : String) : Pubkey :=
  s.toList.foldl (fun n c => n * 58 + base58Alphabet.idxOf c) 0

/-- `u32` with wrapping addition, as the release profile computes it. -/
abbrev U32 := Fin (2 ^ 32)

instance U32.instNeZero : NeZero (2 ^ 32 : ℕ) := ⟨(Nat.two_pow_pos 32).ne'⟩

/-- Numbers counted on from `base` are the positions from `n` on iff `base` is `n` and none
of them wraps. -/
theorem U32.numbers_iff {α β : Type*} (f : α → β) (base : U32) (entries : List α) (n : ℕ) :
    (entries.zipIdx.map fun e => (f e.1, (base + Fin.ofNat (2 ^ 32) e.2).val)) =
        (entries.map f).zipIdx n ↔
      entries = [] ∨ base.val = n ∧ n + entries.length ≤ 2 ^ 32 := by
  have hval : (fun e : α × ℕ => (f e.1, (base + Fin.ofNat (2 ^ 32) e.2).val)) =
      fun e => (f e.1, (base.val + e.2) % 2 ^ 32) := by
    funext e
    simp [Fin.val_add]
  rw [hval]
  constructor
  · intro h
    by_cases hnil : entries = []
    · exact Or.inl hnil
    · have hpos := List.length_pos_iff.mpr hnil
      have hat : ∀ i < entries.length, (base.val + i) % 2 ^ 32 = n + i := by
        intro i hi
        have hi' := congrArg (fun l => l[i]?) h
        simpa [hi] using hi'
      have hfirst := hat 0 hpos
      have hlast := hat (entries.length - 1) (by omega)
      have hbase := base.isLt
      omega
  · rintro (rfl | ⟨hbase, hlen⟩)
    · rfl
    · refine List.ext_getElem (by simp) fun i hi hi' => ?_
      have hlt : i < entries.length := by simpa using hi
      have hmod : (base.val + i) % 2 ^ 32 = n + i := by omega
      simpa using hmod

def U32.MAX : ℕ := 2 ^ 32 - 1
def U64.MAX : ℕ := 2 ^ 64 - 1

def satAddU8 (a b : ℕ) : ℕ := min (a + b) 255
def satAddU32 (a b : ℕ) : ℕ := min (a + b) U32.MAX
def satAddU64 (a b : ℕ) : ℕ := min (a + b) U64.MAX
def satMulU64 (a b : ℕ) : ℕ := min (a * b) U64.MAX

/-- `d.as_micros().min(u32::MAX as u128) as u32`. -/
def Duration.asMicrosU32 (d : Duration) : ℕ := min (d / 1000) U32.MAX

/-- `later.saturating_duration_since(earlier)`. -/
def Instant.saturatingDurationSince (later earlier : Instant) : Duration := later - earlier

inductive SourceKind
  | yellowstone | shredStream
  deriving DecidableEq, Repr

structure EntryObservation where
  source : SourceKind
  observedAt : Instant
  slot : ℕ
  entryIndex : U32
  numHashes : ℕ
  entryHash : Hash
  txCount : ℕ
  signatures : List Signature
  firstShredAt : Option Instant := none
  leader : Option Pubkey := none
  deriving DecidableEq, Repr

def EntryObservation.isTick (o : EntryObservation) : Bool := o.txCount == 0

namespace Yellowstone

/-- The fields of the Geyser entry update that the decoder reads. -/
structure SubscribeUpdateEntry where
  slot : ℕ
  index : ℕ
  numHashes : ℕ
  hash : List UInt8
  executedTransactionCount : ℕ

def hashOfBytes (bs : List UInt8) : Hash := bs.foldl (fun n b => 256 * n + b.toNat) 0

/-- The update carries no transactions, so the signature list is empty; the two
`as u32` casts truncate. -/
def decodeEntry (e : SubscribeUpdateEntry) (observedAt : Instant) : EntryObservation where
  source := .yellowstone
  observedAt := observedAt
  slot := e.slot
  entryIndex := Fin.ofNat (2 ^ 32) e.index
  numHashes := e.numHashes
  entryHash := if e.hash.length = 32 then hashOfBytes e.hash else 0
  txCount := e.executedTransactionCount % 2 ^ 32
  signatures := []

@[simp] theorem decodeEntry_signatures (e : SubscribeUpdateEntry) (t : Instant) :
    (decodeEntry e t).signatures = [] := rfl

end Yellowstone
end SolanaBench
