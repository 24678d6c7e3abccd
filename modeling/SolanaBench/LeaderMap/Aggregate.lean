import Mathlib.Data.String.Basic
import SolanaBench.Lib.Tally

/-! Cross-reference of the leader schedule with the validators' locations: the slot map of an
epoch and its summary by country. The floating-point numbers of the summary are a parameter. -/
namespace SolanaBench.LeaderMap

structure ValidatorInfo where
  identity : String
  name : Option String
  voteAccount : Option String
  activeStakeLamports : ℕ
  countryCode : Option String
  dataCenterKey : Option String
  asn : Option ℕ
  asnOrganization : Option String
  ip : Option String
  deriving DecidableEq, Repr

structure EpochInfo where
  epoch : ℕ
  absoluteSlot : ℕ
  slotIndex : ℕ
  deriving DecidableEq, Repr

/-- The `u64` difference, as the release profile computes it. -/
def EpochInfo.epochFirstSlot (e : EpochInfo) : ℕ :=
  (e.absoluteSlot + 2 ^ 64 - e.slotIndex) % 2 ^ 64

abbrev LeaderSchedule := SortedMap String (List ℕ)

structure EpochSnapshot where
  epoch : EpochInfo
  validators : List ValidatorInfo
  schedule : LeaderSchedule

structure SlotEntry where
  absoluteSlot : ℕ
  identity : String
  validatorName : Option String
  countryCode : Option String
  dataCenterKey : Option String
  stakeLamports : ℕ
  deriving DecidableEq, Repr

abbrev SlotMap := SortedMap ℕ SlotEntry

def SlotMap.values (m : SlotMap) : List SlotEntry := m.entries.map Prod.snd

/-! ## The slot map -/

/-- Of the validators with one identity the last one is found. -/
def byIdentity (validators : List ValidatorInfo) : SortedMap String ValidatorInfo :=
  validators.foldl (fun m v => m.insert v.identity v) ∅

def slotEntry (abs : ℕ) (identity : String) (info : Option ValidatorInfo) : SlotEntry where
  absoluteSlot := abs
  identity := identity
  validatorName := info.bind ValidatorInfo.name
  countryCode := info.bind ValidatorInfo.countryCode
  dataCenterKey := info.bind ValidatorInfo.dataCenterKey
  stakeLamports := (info.map ValidatorInfo.activeStakeLamports).getD 0

def buildSlotMap (snap : EpochSnapshot) : SlotMap :=
  let byIdentity := byIdentity snap.validators
  let epochFirst := snap.epoch.epochFirstSlot
  snap.schedule.entries.foldl (fun out leader =>
    leader.2.foldl (fun out idx =>
      let abs := (epochFirst + idx) % 2 ^ 64
      out.insert abs (slotEntry abs leader.1 (byIdentity.get? leader.1))) out) ∅

/-! ## The summary -/

/-- `f64`: `0.0`, `(part as f64) / (total as f64) * 100.0`, and the comparison. -/
structure Float64 (F : Type) where
  zero : F
  percentOf : ℕ → ℕ → F
  partialCmp : F → F → Option Ordering

def Float64.pct {F : Type} (f : Float64 F) (part total : ℕ) : F :=
  if total = 0 then f.zero else f.percentOf part total

structure CountrySummary (F : Type) where
  countryCode : String
  slotCount : ℕ
  slotPercentage : F
  stakeLamports : ℕ
  stakePercentage : F
  validatorCount : ℕ

structure EpochSummary (F : Type) where
  epoch : ℕ
  totalSlots : ℕ
  mappedSlots : ℕ
  unknownSlots : ℕ
  countries : List (CountrySummary F)
  totalStakeLamports : ℕ

/-- The slots of each country, and those without one. -/
def countSlots (entries : List SlotEntry) : SortedMap String ℕ × ℕ :=
  entries.foldl (fun acc entry =>
    match entry.countryCode with
    | some cc => (acc.1.addTo cc 1, acc.2)
    | none => (acc.1, acc.2 + 1)) (∅, 0)

def ValidatorInfo.bucket (v : ValidatorInfo) : String := v.countryCode.getD "??"

def stakePerCountry (snap : EpochSnapshot) : SortedMap String ℕ :=
  SortedMap.tally ValidatorInfo.bucket ValidatorInfo.activeStakeLamports snap.validators

def validatorsPerCountry (snap : EpochSnapshot) : SortedMap String ℕ :=
  SortedMap.tally ValidatorInfo.bucket (fun _ => 1) snap.validators

def totalStake (snap : EpochSnapshot) : ℕ :=
  (snap.validators.map ValidatorInfo.activeStakeLamports).sum

def allCountries (snap : EpochSnapshot) (slotMap : SlotMap) : SortedMap String Unit :=
  let slots := countSlots slotMap.values
  let codes := SortedMap.keySet (slots.1.keys ++ (stakePerCountry snap).keys)
  if slots.2 > 0 then codes.insert "??" () else codes

/-- The row of one country: the slots of `"??"` are those without a country. -/
def countryRow {F : Type} (f : Float64 F) (snap : EpochSnapshot) (slotMap : SlotMap)
    (cc : String) : CountrySummary F :=
  let slots := countSlots slotMap.values
  let slotCount := if cc = "??" then slots.2 else slots.1.valueOf cc
  let stake := (stakePerCountry snap).valueOf cc
  { countryCode := cc
    slotCount := slotCount
    slotPercentage := f.pct slotCount slotMap.size
    stakeLamports := stake
    stakePercentage := f.pct stake (totalStake snap)
    validatorCount := (validatorsPerCountry snap).valueOf cc }

/-- `sort_by` on `b.slot_percentage.partial_cmp(&a.slot_percentage)`. -/
def sortBySlots {F : Type} (f : Float64 F) (countries : List (CountrySummary F)) :
    List (CountrySummary F) :=
  countries.mergeSort fun a b =>
    ((f.partialCmp b.slotPercentage a.slotPercentage).getD .eq).isLE

def summarize {F : Type} (f : Float64 F) (snap : EpochSnapshot) (slotMap : SlotMap) :
    EpochSummary F :=
  let unknownSlots := (countSlots slotMap.values).2
  { epoch := snap.epoch.epoch
    totalSlots := slotMap.size
    mappedSlots := slotMap.size - unknownSlots
    unknownSlots := unknownSlots
    countries := sortBySlots f ((allCountries snap slotMap).keys.map (countryRow f snap slotMap))
    totalStakeLamports := totalStake snap }

/-! ## What the slot map says of a slot -/

/-- The slot is scheduled for a leader, and the entry carries what is known of that leader. -/
def IsScheduled (snap : EpochSnapshot) (slot : ℕ) (e : SlotEntry) : Prop :=
  ∃ leader ∈ snap.schedule.entries, ∃ idx ∈ leader.2,
    slot = (snap.epoch.epochFirstSlot + idx) % 2 ^ 64 ∧
      e = slotEntry slot leader.1 ((byIdentity snap.validators).get? leader.1)

theorem get?_buildSlotMap {snap : EpochSnapshot} {slot : ℕ} {e : SlotEntry}
    (he : (buildSlotMap snap).get? slot = some e) : IsScheduled snap slot e := by
  revert slot e
  unfold buildSlotMap
  dsimp only
  refine List.foldlRecOn (motive := fun out : SlotMap =>
    ∀ {slot e}, out.get? slot = some e → IsScheduled snap slot e) _ _ ?_ ?_
  · intro slot e he
    cases he
  · intro out hout leader hleader
    refine List.foldlRecOn (motive := fun out : SlotMap =>
      ∀ {slot e}, out.get? slot = some e → IsScheduled snap slot e) _ _ hout ?_
    intro out hout idx hidx slot e he
    rw [SortedMap.get?_insert] at he
    split at he
    · next hslot =>
      refine ⟨leader, hleader, idx, hidx, hslot, ?_⟩
      rw [hslot]
      exact (Option.some.inj he).symm
    · exact hout he

end SolanaBench.LeaderMap
