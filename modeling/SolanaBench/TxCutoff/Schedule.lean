import Mathlib.Data.Set.Function
import Mathlib.Order.Interval.Set.Defs

/-! Which offset a block is sampled at: the first blocks get the first offset, as many as there
are samples, the next blocks the second, and so on. -/
namespace SolanaBench.TxCutoff

structure SchedulerConfig where
  startMs : ℕ
  endMs : ℕ
  stepMs : ℕ
  samplesPerWalletPerSlot : ℕ

/-- The offsets from the start to the inclusive end. -/
def SchedulerConfig.offsets (cfg : SchedulerConfig) : Set ℕ :=
  {o | o ≤ cfg.endMs ∧ ∃ k, o = cfg.startMs + k * cfg.stepMs}

/-- `Schedule::new` accepts the configuration. -/
structure Schedule where
  cfg : SchedulerConfig
  range : cfg.startMs ≤ cfg.endMs
  step : 0 < cfg.stepMs
  samples : 0 < cfg.samplesPerWalletPerSlot

inductive SchedulerError
  | invalidRange (startMs endMs : ℕ)
  | zeroStep
  | zeroSamples
  deriving DecidableEq, Repr

namespace Schedule

def new (cfg : SchedulerConfig) : Except SchedulerError Schedule :=
  if hrange : cfg.startMs ≤ cfg.endMs then
    if hstep : 0 < cfg.stepMs then
      if hsamples : 0 < cfg.samplesPerWalletPerSlot then .ok ⟨cfg, hrange, hstep, hsamples⟩
      else .error .zeroSamples
    else .error .zeroStep
  else .error (.invalidRange cfg.startMs cfg.endMs)

def slotsCount (s : Schedule) : ℕ := (s.cfg.endMs - s.cfg.startMs) / s.cfg.stepMs + 1

def totalBlocks (s : Schedule) : ℕ := s.slotsCount * s.cfg.samplesPerWalletPerSlot

def slotMsFor (s : Schedule) (blockIndex : ℕ) : Option ℕ :=
  if blockIndex ≥ s.totalBlocks then none
  else some (s.cfg.startMs + blockIndex / s.cfg.samplesPerWalletPerSlot * s.cfg.stepMs)

def sampleIdxFor (s : Schedule) (blockIndex : ℕ) : Option ℕ :=
  if blockIndex ≥ s.totalBlocks then none
  else some (blockIndex % s.cfg.samplesPerWalletPerSlot)

/-- Where the engine takes an offset there is one. -/
theorem slotMsFor_eq_none_iff (s : Schedule) (blockIndex : ℕ) :
    s.slotMsFor blockIndex = none ↔ s.totalBlocks ≤ blockIndex := by
  simp [slotMsFor]

/-- What a block of the plan is for: an offset and one of its samples. -/
def assign (s : Schedule) (blockIndex : ℕ) : Option (ℕ × ℕ) := do
  let slotMs ← s.slotMsFor blockIndex
  let sampleIdx ← s.sampleIdxFor blockIndex
  return (slotMs, sampleIdx)

theorem assign_eq (s : Schedule) {b : ℕ} (h : b < s.totalBlocks) :
    s.assign b = some (s.cfg.startMs + b / s.cfg.samplesPerWalletPerSlot * s.cfg.stepMs,
      b % s.cfg.samplesPerWalletPerSlot) := by
  simp [assign, slotMsFor, sampleIdxFor, not_le.mpr h]

theorem totalBlocks_pos (s : Schedule) : 0 < s.totalBlocks :=
  Nat.mul_pos (Nat.succ_pos _) s.samples

theorem div_lt_slotsCount_iff (s : Schedule) (b : ℕ) :
    b / s.cfg.samplesPerWalletPerSlot < s.slotsCount ↔ b < s.totalBlocks :=
  Nat.div_lt_iff_lt_mul s.samples

/-- The offsets that the plan counts are those up to the end, also where the step does not
divide the range. -/
theorem offset_le_iff (s : Schedule) (k : ℕ) :
    s.cfg.startMs + k * s.cfg.stepMs ≤ s.cfg.endMs ↔ k < s.slotsCount := by
  have hrange := s.range
  unfold slotsCount
  rw [Nat.lt_succ_iff, Nat.le_div_iff_mul_le s.step]
  omega

theorem assign_injOn (s : Schedule) : Set.InjOn s.assign (Set.Iio s.totalBlocks) := by
  intro b hb c hc h
  rw [s.assign_eq hb, s.assign_eq hc] at h
  obtain ⟨hslot, hsample⟩ := Prod.mk.inj (Option.some.inj h)
  have hdiv := Nat.eq_of_mul_eq_mul_right s.step (Nat.add_left_cancel hslot)
  rw [← Nat.div_add_mod b s.cfg.samplesPerWalletPerSlot,
    ← Nat.div_add_mod c s.cfg.samplesPerWalletPerSlot, hdiv, hsample]

/-- Each sample of each offset has its block. -/
theorem assign_bijOn (s : Schedule) : Set.BijOn s.assign (Set.Iio s.totalBlocks)
    (some '' (s.cfg.offsets ×ˢ Set.Iio s.cfg.samplesPerWalletPerSlot)) := by
  refine ⟨fun b hb => ?_, s.assign_injOn, ?_⟩
  · rw [s.assign_eq hb]
    refine Set.mem_image_of_mem some ⟨⟨?_, _, rfl⟩, Nat.mod_lt b s.samples⟩
    exact (s.offset_le_iff _).mpr ((s.div_lt_slotsCount_iff b).mpr hb)
  · rintro _ ⟨⟨o, j⟩, ⟨⟨hend, k, rfl⟩, hj⟩, rfl⟩
    have hdiv : (k * s.cfg.samplesPerWalletPerSlot + j) / s.cfg.samplesPerWalletPerSlot = k := by
      rw [Nat.mul_comm, Nat.mul_add_div s.samples, Nat.div_eq_of_lt hj, Nat.add_zero]
    have hlt : k * s.cfg.samplesPerWalletPerSlot + j < s.totalBlocks := by
      rw [← s.div_lt_slotsCount_iff, hdiv]
      exact (s.offset_le_iff k).mp hend
    refine ⟨_, hlt, ?_⟩
    rw [s.assign_eq hlt, hdiv, Nat.mul_add_mod_of_lt hj]

end Schedule
end SolanaBench.TxCutoff
