import Mathlib.Data.List.Nodup
import Mathlib.Data.List.Range
import Mathlib.Algebra.Order.Group.Nat

/-! The schedule: one tick for every slot, generated chunk by chunk. Slots are far from
the top of `u64`, so their sums are not reduced. -/
namespace SolanaBench.FanOut

structure ScheduleEntry where
  slot : ℕ
  tick : ℕ
  deriving DecidableEq, Repr

structure Schedule where
  seed : ℕ
  startSlot : ℕ
  chunkSizeSlots : ℕ
  /-- The draws of `gen_range(1..=64)` from a generator seeded with the first argument. -/
  genRange : ℕ → ℕ → ℕ

namespace Schedule

variable (s : Schedule)

def chunkStartSlot (chunkIndex : ℕ) : ℕ := s.startSlot + chunkIndex * s.chunkSizeSlots

def generateChunkAt (chunkIndex : ℕ) : List ScheduleEntry :=
  let chunkSeed := (s.seed + chunkIndex * 0x9E3779B97F4A7C15) % 2 ^ 64
  (List.range s.chunkSizeSlots).map fun i =>
    ⟨s.chunkStartSlot chunkIndex + i, s.genRange chunkSeed i⟩

/-- What the schedule pump sends in its first `n` chunks. -/
def chunks (n : ℕ) : List ScheduleEntry := (List.range n).flatMap s.generateChunkAt

theorem slots_generateChunkAt (chunkIndex : ℕ) :
    (s.generateChunkAt chunkIndex).map ScheduleEntry.slot =
      List.range' (s.chunkStartSlot chunkIndex) s.chunkSizeSlots := by
  simp only [generateChunkAt, List.map_map, List.range'_eq_map_range]
  rfl

theorem slots_chunks (n : ℕ) :
    (s.chunks n).map ScheduleEntry.slot = List.range' s.startSlot (n * s.chunkSizeSlots) := by
  induction n with
  | zero => simp [chunks]
  | succ n ih =>
    have hsplit : s.chunks (n + 1) = s.chunks n ++ s.generateChunkAt n := by
      simp [chunks, List.range_succ, List.flatMap_append]
    rw [hsplit, List.map_append, ih, slots_generateChunkAt, Nat.succ_mul,
      ← List.range'_append_1, chunkStartSlot]

/-- No slot, and so no `(slot, tick)`, is scheduled twice. -/
theorem nodup_chunks (n : ℕ) : (s.chunks n).Nodup := by
  have hslots := List.nodup_range' (s := s.startSlot) (n := n * s.chunkSizeSlots)
  rw [← slots_chunks] at hslots
  exact List.Nodup.of_map ScheduleEntry.slot hslots

end Schedule
end SolanaBench.FanOut
