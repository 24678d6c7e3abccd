import Mathlib.Algebra.Order.Group.Nat
import SolanaBench.Lib.WordOps
import SolanaBench.TxCutoff.Schedule

/-! The schedule on the 64-bit words that the code computes with. Nothing bounds the number of
samples, so that the number of blocks may not fit. -/
namespace SolanaBench.TxCutoff

/-- The timing of the configuration file, and the configuration that `main` makes of it. -/
structure TimingConfig where
  startMs : UInt64
  endMs : UInt64
  stepMs : UInt64
  samplesPerWalletPerSlot : UInt64

namespace TimingConfig

def toNat (cfg : TimingConfig) : SchedulerConfig where
  startMs := cfg.startMs.toNat
  endMs := cfg.endMs.toNat
  stepMs := cfg.stepMs.toNat
  samplesPerWalletPerSlot := cfg.samplesPerWalletPerSlot.toNat

/-- The offsets from the start to the inclusive end. -/
def offsets (cfg : TimingConfig) : Set UInt64 :=
  {o | o ≤ cfg.endMs ∧ ∃ k : ℕ, o.toNat = cfg.startMs.toNat + k * cfg.stepMs.toNat}

section

variable {m : Type → Type} [Monad m]

def slotsCount (ops : WordOps m) (cfg : TimingConfig) : m UInt64 := do
  let range ← ops.sub cfg.endMs cfg.startMs
  ops.add (range / cfg.stepMs) 1

/-- The count of the pre-flight. -/
def txPerWallet (ops : WordOps m) (cfg : TimingConfig) : m UInt64 := do
  let slotsCount ← cfg.slotsCount ops
  ops.mul slotsCount cfg.samplesPerWalletPerSlot

end

end TimingConfig

/-- `Schedule::new` accepts the configuration. -/
structure WordSchedule where
  cfg : TimingConfig
  slotsCount : UInt64
  range : cfg.startMs ≤ cfg.endMs
  step : 0 < cfg.stepMs
  samples : 0 < cfg.samplesPerWalletPerSlot

namespace WordSchedule

section

variable {m : Type → Type} [Monad m]

def new (ops : WordOps m) (cfg : TimingConfig) : m (Except SchedulerError WordSchedule) :=
  if hrange : cfg.startMs ≤ cfg.endMs then
    if hstep : 0 < cfg.stepMs then
      if hsamples : 0 < cfg.samplesPerWalletPerSlot then do
        let slotsCount ← cfg.slotsCount ops
        return .ok ⟨cfg, slotsCount, hrange, hstep, hsamples⟩
      else return .error .zeroSamples
    else return .error .zeroStep
  else return .error (.invalidRange cfg.startMs.toNat cfg.endMs.toNat)

def totalBlocks (ops : WordOps m) (s : WordSchedule) : m UInt64 :=
  ops.mul s.slotsCount s.cfg.samplesPerWalletPerSlot

def slotMsFor (ops : WordOps m) (s : WordSchedule) (blockIndex : UInt64) : m (Option UInt64) := do
  let total ← s.totalBlocks ops
  if blockIndex ≥ total then return none
  let slotIdx := blockIndex / s.cfg.samplesPerWalletPerSlot
  let offset ← ops.mul slotIdx s.cfg.stepMs
  let slotMs ← ops.add s.cfg.startMs offset
  return some slotMs

def sampleIdxFor (ops : WordOps m) (s : WordSchedule) (blockIndex : UInt64) :
    m (Option UInt64) := do
  let total ← s.totalBlocks ops
  if blockIndex ≥ total then return none
  return some (blockIndex % s.cfg.samplesPerWalletPerSlot)

end

/-- What a block of the plan is for. -/
def assign (s : WordSchedule) (blockIndex : UInt64) : Option (UInt64 × UInt64) := do
  let slotMs ← (s.slotMsFor .release blockIndex).run
  let sampleIdx ← (s.sampleIdxFor .release blockIndex).run
  return (slotMs, sampleIdx)

def toNat (s : WordSchedule) : Schedule where
  cfg := s.cfg.toNat
  range := UInt64.le_iff_toNat_le.mp s.range
  step := UInt64.lt_iff_toNat_lt.mp s.step
  samples := UInt64.lt_iff_toNat_lt.mp s.samples

/-- Each sample of each offset has its block, and there are no more blocks. -/
structure CoversPlan (s : WordSchedule) : Prop where
  assigns : Set.BijOn s.assign {b | b < (s.totalBlocks .release).run}
    (some '' (s.cfg.offsets ×ˢ {j | j < s.cfg.samplesPerWalletPerSlot}))
  beyond : ∀ b, (s.totalBlocks .release).run ≤ b →
    (s.slotMsFor .release b).run = none ∧ (s.sampleIdxFor .release b).run = none

/-- No build stops at a result that is out of range. -/
structure InRange (s : WordSchedule) : Prop where
  new : (new .debug s.cfg).isSome
  totalBlocks : (s.totalBlocks .debug).isSome
  slotMsFor : ∀ b, (s.slotMsFor .debug b).isSome
  sampleIdxFor : ∀ b, (s.sampleIdxFor .debug b).isSome
  txPerWallet : (s.cfg.txPerWallet .debug).isSome

/-- The blocks are those of the plan, as many as a wallet is charged for, in every build. -/
structure Sound (s : WordSchedule) : Prop where
  coversPlan : s.CoversPlan
  inRange : s.InRange
  budget : (s.cfg.txPerWallet .release).run = (s.totalBlocks .release).run

section

variable {s : WordSchedule} {cfg : TimingConfig} {b : UInt64}

theorem new_eq_ok (h : (new .release cfg).run = .ok s) :
    s.cfg = cfg ∧ s.slotsCount = (cfg.endMs - cfg.startMs) / cfg.stepMs + 1 := by
  unfold new at h
  split at h
  · split at h
    · split at h
      · cases h
        exact ⟨rfl, rfl⟩
      · cases h
    · cases h
  · cases h

/-- The release build counts the blocks modulo `2 ^ 64`. -/
theorem toNat_totalBlocks
    (h : s.slotsCount = (s.cfg.endMs - s.cfg.startMs) / s.cfg.stepMs + 1) :
    (s.totalBlocks .release).run.toNat = s.toNat.totalBlocks % 2 ^ 64 := by
  change (s.slotsCount * s.cfg.samplesPerWalletPerSlot).toNat = _
  have hsub : (s.cfg.endMs - s.cfg.startMs).toNat = s.cfg.endMs.toNat - s.cfg.startMs.toNat :=
    UInt64.toNat_sub_of_le _ _ s.range
  rw [UInt64.toNat_mul, h, UInt64.toNat_add, UInt64.toNat_div, hsub, Nat.mod_mul_mod]
  rfl

/-- What the words stand for. -/
def numbers : Option (UInt64 × UInt64) → Option (ℕ × ℕ) :=
  Option.map (Prod.map UInt64.toNat UInt64.toNat)

theorem numbers_injective : Function.Injective numbers :=
  Option.map_injective (Prod.map_injective.mpr
    ⟨fun _ _ h => UInt64.toNat_inj.mp h, fun _ _ h => UInt64.toNat_inj.mp h⟩)

theorem mem_target_iff (p : Option (UInt64 × UInt64)) :
    p ∈ some '' (s.cfg.offsets ×ˢ {j | j < s.cfg.samplesPerWalletPerSlot}) ↔
      numbers p ∈
        some '' (s.toNat.cfg.offsets ×ˢ Set.Iio s.toNat.cfg.samplesPerWalletPerSlot) := by
  cases p with
  | none => simp [numbers]
  | some p =>
    have hnumbers : numbers (some p) = some (p.1.toNat, p.2.toNat) := rfl
    rw [hnumbers, (Option.some_injective _).mem_set_image,
      (Option.some_injective _).mem_set_image]
    exact and_congr (and_congr UInt64.le_iff_toNat_le Iff.rfl) UInt64.lt_iff_toNat_lt

/-- The offsets and samples of the plan are words. -/
theorem exists_numbers {q : Option (ℕ × ℕ)} (hq : q ∈
    some '' (s.toNat.cfg.offsets ×ˢ Set.Iio s.toNat.cfg.samplesPerWalletPerSlot)) :
    ∃ p, numbers p = q := by
  obtain ⟨⟨o, j⟩, ⟨⟨hend, -⟩, hj⟩, rfl⟩ := hq
  have ho : o < 2 ^ 64 := hend.trans_lt s.cfg.endMs.toNat_lt
  have hj : j < 2 ^ 64 := lt_trans hj s.cfg.samplesPerWalletPerSlot.toNat_lt
  exact ⟨some (UInt64.ofNat o, UInt64.ofNat j),
    congrArg some (Prod.ext (UInt64.toNat_ofNat_of_lt' ho) (UInt64.toNat_ofNat_of_lt' hj))⟩

theorem slotMsFor_release : (s.slotMsFor .release b).run =
    if b ≥ (s.totalBlocks .release).run then none
    else some (s.cfg.startMs + b / s.cfg.samplesPerWalletPerSlot * s.cfg.stepMs) := rfl

theorem sampleIdxFor_release : (s.sampleIdxFor .release b).run =
    if b ≥ (s.totalBlocks .release).run then none
    else some (b % s.cfg.samplesPerWalletPerSlot) := rfl

/-- The offset of a block of the plan fits, for it is not after the end. -/
theorem offset_fits (hplan : b.toNat < s.toNat.totalBlocks) :
    (b / s.cfg.samplesPerWalletPerSlot).toNat * s.cfg.stepMs.toNat < 2 ^ 64 ∧
      s.cfg.startMs.toNat + (b / s.cfg.samplesPerWalletPerSlot).toNat * s.cfg.stepMs.toNat <
        2 ^ 64 := by
  have hend : s.cfg.startMs.toNat + b.toNat / s.cfg.samplesPerWalletPerSlot.toNat *
      s.cfg.stepMs.toNat ≤ s.cfg.endMs.toNat :=
    (s.toNat.offset_le_iff _).mpr ((s.toNat.div_lt_slotsCount_iff _).mpr hplan)
  have hlt := s.cfg.endMs.toNat_lt
  rw [UInt64.toNat_div]
  omega

/-- On its blocks the release build does what the plan says. -/
theorem numbers_assign (hb : b < (s.totalBlocks .release).run)
    (hplan : b.toNat < s.toNat.totalBlocks) : numbers (s.assign b) = s.toNat.assign b.toNat := by
  have hnot : ¬b ≥ (s.totalBlocks .release).run := UInt64.not_le.mpr hb
  obtain ⟨hmul, hadd⟩ := offset_fits hplan
  unfold assign
  rw [slotMsFor_release, sampleIdxFor_release, if_neg hnot, if_neg hnot, s.toNat.assign_eq hplan]
  rw [← WordOps.toNat_mul hmul] at hadd
  have hslot := WordOps.toNat_add hadd
  rw [WordOps.toNat_mul hmul, UInt64.toNat_div] at hslot
  exact congrArg some (Prod.ext hslot (UInt64.toNat_mod _ _))

/-- A number of blocks that fits is the one of the plan. -/
theorem lt_totalBlocks_iff
    (h : s.slotsCount = (s.cfg.endMs - s.cfg.startMs) / s.cfg.stepMs + 1)
    (hfits : s.toNat.totalBlocks < 2 ^ 64) :
    b < (s.totalBlocks .release).run ↔ b.toNat < s.toNat.totalBlocks := by
  rw [UInt64.lt_iff_toNat_lt, toNat_totalBlocks h, Nat.mod_eq_of_lt hfits]

theorem coversPlan_of_fits
    (h : s.slotsCount = (s.cfg.endMs - s.cfg.startMs) / s.cfg.stepMs + 1)
    (hfits : s.toNat.totalBlocks < 2 ^ 64) : s.CoversPlan := by
  have hnumbers : ∀ b, b < (s.totalBlocks .release).run →
      numbers (s.assign b) = s.toNat.assign b.toNat := fun b hb =>
    numbers_assign hb ((lt_totalBlocks_iff h hfits).mp hb)
  refine ⟨⟨fun b hb => ?_, fun b hb c hc heq => ?_, fun p hp => ?_⟩, fun b hb => ?_⟩
  · rw [mem_target_iff, hnumbers b hb]
    exact s.toNat.assign_bijOn.mapsTo ((lt_totalBlocks_iff h hfits).mp hb)
  · have hnat : s.toNat.assign b.toNat = s.toNat.assign c.toNat := by
      rw [← hnumbers b hb, ← hnumbers c hc, heq]
    exact UInt64.toNat_inj.mp (s.toNat.assign_injOn ((lt_totalBlocks_iff h hfits).mp hb)
      ((lt_totalBlocks_iff h hfits).mp hc) hnat)
  · obtain ⟨n, hn, hassign⟩ := s.toNat.assign_bijOn.surjOn ((mem_target_iff p).mp hp)
    have hword : (UInt64.ofNat n).toNat = n := UInt64.toNat_ofNat_of_lt' (hn.trans hfits)
    have hlt : UInt64.ofNat n < (s.totalBlocks .release).run := by
      rw [lt_totalBlocks_iff h hfits, hword]
      exact hn
    refine ⟨_, hlt, numbers_injective ?_⟩
    rw [hnumbers _ hlt, hword, hassign]
  · rw [slotMsFor_release, sampleIdxFor_release, if_pos hb, if_pos hb]
    exact ⟨rfl, rfl⟩

/-- A number of blocks that does not fit leaves the last block of the plan out. -/
theorem fits_of_coversPlan
    (h : s.slotsCount = (s.cfg.endMs - s.cfg.startMs) / s.cfg.stepMs + 1)
    (hcovers : s.CoversPlan) : s.toNat.totalBlocks < 2 ^ 64 := by
  have hpos := s.toNat.totalBlocks_pos
  have hlast : s.toNat.totalBlocks - 1 < s.toNat.totalBlocks := Nat.sub_one_lt_of_lt hpos
  have htotal := toNat_totalBlocks h
  -- the release build has no more blocks than the plan
  have hplan : ∀ b, b < (s.totalBlocks .release).run → b.toNat < s.toNat.totalBlocks := by
    intro b hb
    rw [UInt64.lt_iff_toNat_lt, htotal] at hb
    exact hb.trans_le (Nat.mod_le _ _)
  have htarget := s.toNat.assign_bijOn.mapsTo hlast
  obtain ⟨p, hp⟩ := exists_numbers htarget
  rw [← hp, ← mem_target_iff] at htarget
  obtain ⟨b, hb, hassign⟩ := hcovers.assigns.surjOn htarget
  have hsame : s.toNat.assign b.toNat = s.toNat.assign (s.toNat.totalBlocks - 1) := by
    rw [← numbers_assign hb (hplan b hb), hassign, hp]
  have hb' := UInt64.lt_iff_toNat_lt.mp hb
  rw [s.toNat.assign_injOn (hplan b hb) hlast hsame, htotal] at hb'
  have hword := Nat.mod_lt s.toNat.totalBlocks (Nat.two_pow_pos 64)
  omega

/-! ## No overflow -/

theorem slotsCount_fits (hfits : s.toNat.totalBlocks < 2 ^ 64) :
    ((s.cfg.endMs - s.cfg.startMs) / s.cfg.stepMs).toNat + (1 : UInt64).toNat < 2 ^ 64 := by
  have hslots : s.toNat.slotsCount ≤ s.toNat.totalBlocks :=
    Nat.le_mul_of_pos_right _ s.toNat.samples
  rw [UInt64.toNat_div, UInt64.toNat_sub_of_le _ _ s.range]
  exact hslots.trans_lt hfits

theorem slotsCount_debug (hfits : s.toNat.totalBlocks < 2 ^ 64) :
    s.cfg.slotsCount .debug = some ((s.cfg.endMs - s.cfg.startMs) / s.cfg.stepMs + 1) := by
  unfold TimingConfig.slotsCount
  rw [WordOps.debug_sub s.range]
  exact WordOps.debug_add (slotsCount_fits hfits)

theorem totalBlocks_debug
    (h : s.slotsCount = (s.cfg.endMs - s.cfg.startMs) / s.cfg.stepMs + 1)
    (hfits : s.toNat.totalBlocks < 2 ^ 64) :
    s.totalBlocks .debug = some (s.totalBlocks .release).run := by
  have hslots : s.slotsCount.toNat = s.toNat.slotsCount := by
    rw [h, WordOps.toNat_add (slotsCount_fits hfits), UInt64.toNat_div,
      UInt64.toNat_sub_of_le _ _ s.range]
    rfl
  refine WordOps.debug_mul ?_
  rw [hslots]
  exact hfits

/-- Where the number of blocks fits everything does. -/
theorem inRange_of_fits
    (h : s.slotsCount = (s.cfg.endMs - s.cfg.startMs) / s.cfg.stepMs + 1)
    (hfits : s.toNat.totalBlocks < 2 ^ 64) : s.InRange := by
  have htotal := totalBlocks_debug h hfits
  constructor
  case new =>
    unfold WordSchedule.new
    rw [dif_pos s.range, dif_pos s.step, dif_pos s.samples, slotsCount_debug hfits]
    rfl
  case totalBlocks =>
    rw [htotal]
    rfl
  case slotMsFor =>
    intro b
    unfold WordSchedule.slotMsFor
    rw [htotal, Option.bind_eq_bind, Option.bind_some]
    split
    · rfl
    · have hb : b < (s.totalBlocks .release).run := UInt64.not_le.mp ‹_›
      obtain ⟨hmul, hadd⟩ := offset_fits ((lt_totalBlocks_iff h hfits).mp hb)
      rw [← WordOps.toNat_mul hmul] at hadd
      dsimp only
      rw [WordOps.debug_mul hmul, Option.bind_some, WordOps.debug_add hadd]
      rfl
  case sampleIdxFor =>
    intro b
    unfold WordSchedule.sampleIdxFor
    rw [htotal, Option.bind_eq_bind, Option.bind_some]
    split <;> rfl
  case txPerWallet =>
    unfold TimingConfig.txPerWallet
    rw [slotsCount_debug hfits, ← h]
    exact Option.isSome_iff_exists.mpr ⟨_, htotal⟩

/-- The schedule is sound exactly when the number of its blocks fits in a word. -/
theorem sound_iff (cfg : TimingConfig) (s : WordSchedule) (h : (new .release cfg).run = .ok s) :
    s.Sound ↔ ((cfg.endMs.toNat - cfg.startMs.toNat) / cfg.stepMs.toNat + 1) *
      cfg.samplesPerWalletPerSlot.toNat < 2 ^ 64 := by
  obtain ⟨rfl, hslots⟩ := new_eq_ok h
  refine ⟨fun hsound => fits_of_coversPlan hslots hsound.coversPlan, fun hfits =>
    ⟨coversPlan_of_fits hslots hfits, inRange_of_fits hslots hfits, ?_⟩⟩
  change ((s.cfg.endMs - s.cfg.startMs) / s.cfg.stepMs + 1) * s.cfg.samplesPerWalletPerSlot = _
  rw [← hslots]
  rfl

/-- The plan of the test suite: 61 offsets with 20 samples each. -/
def samplePlan : TimingConfig := ⟨8500, 11500, 50, 20⟩

def sampleSchedule : WordSchedule := ⟨samplePlan, 61, by decide, by decide, by decide⟩

theorem sound_iff_samplePlan : sampleSchedule.Sound :=
  (sound_iff samplePlan sampleSchedule rfl).mpr (by decide)

/-- Two offsets with `2 ^ 63` samples each. -/
def longPlan : TimingConfig := ⟨0, 50, 50, 9223372036854775808⟩

def longSchedule : WordSchedule := ⟨longPlan, 2, by decide, by decide, by decide⟩

/-- The schedule is accepted, and its blocks are counted as none: block 0 has no offset. -/
theorem long_plan_is_empty : (new .release longPlan).run = .ok longSchedule ∧
    ¬longSchedule.Sound ∧ (longSchedule.totalBlocks .release).run = 0 ∧
    (longSchedule.slotMsFor .release 0).run = none ∧ longSchedule.totalBlocks .debug = none := by
  have htotal : longSchedule.totalBlocks .debug = none := by decide
  refine ⟨rfl, fun hsound => ?_, by decide, by decide, htotal⟩
  have hsome := hsound.inRange.totalBlocks
  rw [htotal] at hsome
  cases hsome

end

end WordSchedule
end SolanaBench.TxCutoff
