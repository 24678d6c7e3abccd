import Mathlib.Data.List.Dedup
import SolanaBench.LeaderMap.Aggregate

/-! The summary neither loses nor doubles a slot, a lamport or a validator, unless a country is
called as the bucket for missing ones or a validator is listed twice. -/
namespace SolanaBench.LeaderMap

/-- The rows add up to the totals, and no country has two rows. -/
structure Conserves {F : Type} (snap : EpochSnapshot) (slotMap : SlotMap) (s : EpochSummary F) :
    Prop where
  totalSlots : s.totalSlots = slotMap.size
  slots : (s.countries.map CountrySummary.slotCount).sum = s.totalSlots
  mapped : s.mappedSlots + s.unknownSlots = s.totalSlots
  stake : (s.countries.map CountrySummary.stakeLamports).sum = s.totalStakeLamports
  validators : (s.countries.map CountrySummary.validatorCount).sum =
    (snap.validators.map ValidatorInfo.identity).dedup.length
  countries : (s.countries.map CountrySummary.countryCode).Nodup

section

variable {F : Type} (f : Float64 F) (snap : EpochSnapshot) (slotMap : SlotMap)

theorem countSlots_eq (entries : List SlotEntry) :
    countSlots entries =
      (SortedMap.tally id (fun _ => 1) (entries.filterMap SlotEntry.countryCode),
        entries.countP fun e => e.countryCode.isNone) := by
  induction entries using List.reverseRecOn with
  | nil => rfl
  | append_singleton entries e ih =>
    unfold countSlots at ih ⊢
    rw [List.foldl_append, ih, List.filterMap_append, List.countP_append]
    cases hcc : e.countryCode with
    | none => simp [hcc]
    | some cc => simp [hcc, SortedMap.tally_snoc]

/-- Every entry has a country or has none. -/
theorem length_filterMap_add_countP (entries : List SlotEntry) :
    (entries.filterMap SlotEntry.countryCode).length +
      entries.countP (fun e => e.countryCode.isNone) = entries.length := by
  induction entries with
  | nil => rfl
  | cons e entries ih =>
    cases hcc : e.countryCode <;> simp [hcc] <;> omega

theorem mem_allCountries {cc : String} : cc ∈ (allCountries snap slotMap).keys ↔
    (cc ∈ (countSlots slotMap.values).1.keys ∨ cc ∈ (stakePerCountry snap).keys) ∨
      (countSlots slotMap.values).2 > 0 ∧ cc = "??" := by
  unfold allCountries
  dsimp only
  split
  · next hpos =>
    rw [SortedMap.mem_keys_insert, SortedMap.mem_keySet, List.mem_append]
    simp only [hpos, true_and]
    exact or_comm
  · next hpos =>
    rw [SortedMap.mem_keySet, List.mem_append]
    simp [hpos]

/-- The rows in the order of the country codes. -/
theorem summarize_countries_perm : (summarize f snap slotMap).countries.Perm
    ((allCountries snap slotMap).keys.map (countryRow f snap slotMap)) :=
  List.mergeSort_perm _ _

theorem sum_countries (g : CountrySummary F → ℕ) :
    ((summarize f snap slotMap).countries.map g).sum =
      ((allCountries snap slotMap).keys.map fun cc => g (countryRow f snap slotMap cc)).sum := by
  rw [((summarize_countries_perm f snap slotMap).map g).sum_eq, List.map_map]
  rfl

/-- The slots of a country called as the bucket are the ones that the rows leave out. -/
theorem sum_slotCount_add :
    ((summarize f snap slotMap).countries.map CountrySummary.slotCount).sum +
      (countSlots slotMap.values).1.valueOf "??" = slotMap.size := by
  -- the rows read off the counts with the bucket's count replaced
  have hrow : ∀ cc, (countryRow f snap slotMap cc).slotCount =
      ((countSlots slotMap.values).1.insert "??" (countSlots slotMap.values).2).valueOf cc := by
    intro cc
    unfold SortedMap.valueOf countryRow
    dsimp only
    rw [SortedMap.get?_insert]
    split <;> rfl
  have hkeys : ∀ cc,
      ((countSlots slotMap.values).1.insert "??" (countSlots slotMap.values).2).valueOf cc ≠ 0 →
        cc ∈ (allCountries snap slotMap).keys := by
    intro cc hcc
    rw [mem_allCountries]
    unfold SortedMap.valueOf at hcc
    rw [SortedMap.get?_insert] at hcc
    split at hcc
    · exact Or.inr ⟨Nat.pos_of_ne_zero hcc, ‹_›⟩
    · exact Or.inl (Or.inl (SortedMap.mem_keys_of_valueOf hcc))
  have hinsert := SortedMap.weight_insert id (countSlots slotMap.values).1 "??"
    (countSlots slotMap.values).2
  have hslots : SortedMap.weight id (countSlots slotMap.values).1 +
      (countSlots slotMap.values).2 = slotMap.size := by
    have hlen : slotMap.values.length = slotMap.size := List.length_map _
    rw [countSlots_eq, SortedMap.weight_tally, ← hlen,
      ← length_filterMap_add_countP slotMap.values]
    simp
  rw [Option.map_id] at hinsert
  rw [sum_countries, funext hrow, SortedMap.sum_valueOf SortedMap.keys_nodup hkeys]
  exact hinsert.trans hslots

/-- None of the slots lies in a country called as the bucket. -/
theorem bucket_slots_eq_zero : (countSlots slotMap.values).1.valueOf "??" = 0 ↔
    ∀ e ∈ slotMap.values, e.countryCode ≠ some "??" := by
  rw [countSlots_eq, SortedMap.valueOf_tally]
  have hsum : ∀ ccs : List String, (ccs.map fun _ => 1).sum = ccs.length := fun ccs => by simp
  unfold FilterSum.doneSum
  rw [hsum, List.length_eq_zero_iff, List.filter_eq_nil_iff]
  simp only [List.mem_filterMap, decide_eq_true_eq, id_eq, forall_exists_index, and_imp]
  constructor
  · intro h e he hcc
    exact h "??" e he hcc rfl
  · rintro h cc e he hcc rfl
    exact h e he hcc

theorem sum_stakeLamports :
    ((summarize f snap slotMap).countries.map CountrySummary.stakeLamports).sum =
      totalStake snap := by
  rw [sum_countries]
  refine (SortedMap.sum_valueOf SortedMap.keys_nodup fun cc hcc => ?_).trans
    (SortedMap.weight_tally _ _ _)
  exact (mem_allCountries snap slotMap).mpr (Or.inl (Or.inr (SortedMap.mem_keys_of_valueOf hcc)))

/-- A validator counts as often as it is listed. -/
theorem sum_validatorCount :
    ((summarize f snap slotMap).countries.map CountrySummary.validatorCount).sum =
      snap.validators.length := by
  rw [sum_countries]
  refine (SortedMap.sum_valueOf SortedMap.keys_nodup fun cc hcc => ?_).trans ?_
  · have hmem : cc ∈ (validatorsPerCountry snap).keys := SortedMap.mem_keys_of_valueOf hcc
    refine (mem_allCountries snap slotMap).mpr (Or.inl (Or.inr ?_))
    exact SortedMap.mem_keys_tally.mpr (SortedMap.mem_keys_tally.mp hmem)
  · unfold validatorsPerCountry
    rw [SortedMap.weight_tally]
    simp

theorem countries_nodup :
    ((summarize f snap slotMap).countries.map CountrySummary.countryCode).Nodup := by
  rw [((summarize_countries_perm f snap slotMap).map CountrySummary.countryCode).nodup_iff,
    List.map_map]
  have hcode : CountrySummary.countryCode ∘ countryRow f snap slotMap = id := rfl
  rw [hcode, List.map_id]
  exact SortedMap.keys_nodup

theorem unknownSlots_le : (countSlots slotMap.values).2 ≤ slotMap.size := by
  have hlen : slotMap.values.length = slotMap.size := List.length_map _
  rw [countSlots_eq, ← hlen]
  exact List.countP_le_length

/-- The summary conserves everything exactly if no slot lies in a country called as the bucket
and no validator is listed twice. -/
theorem summarize_conserves_iff : Conserves snap slotMap (summarize f snap slotMap) ↔
    (∀ e ∈ slotMap.values, e.countryCode ≠ some "??") ∧
      (snap.validators.map ValidatorInfo.identity).Nodup := by
  have hslots := sum_slotCount_add f snap slotMap
  have hvalidators := sum_validatorCount f snap slotMap
  rw [← bucket_slots_eq_zero]
  constructor
  · intro h
    have hsum : ((summarize f snap slotMap).countries.map CountrySummary.slotCount).sum =
      slotMap.size := h.slots
    refine ⟨by omega, ?_⟩
    have hdedup : (snap.validators.map ValidatorInfo.identity).dedup.length =
        (snap.validators.map ValidatorInfo.identity).length := by
      rw [← h.validators, hvalidators, List.length_map]
    rw [← List.dedup_eq_self]
    exact (List.dedup_sublist _).eq_of_length hdedup
  · rintro ⟨hzero, hnd⟩
    refine ⟨rfl, ?_, ?_, sum_stakeLamports f snap slotMap, ?_, countries_nodup f snap slotMap⟩
    · rw [hzero] at hslots
      exact hslots
    · exact Nat.sub_add_cancel (unknownSlots_le slotMap)
    · rw [hvalidators, hnd.dedup, List.length_map]

end

/-- The percentages as hundredths of a percent, rounded down. -/
def basisPoints : Float64 ℕ where
  zero := 0
  percentOf part total := part * 10_000 / total
  partialCmp a b := some (compare a b)

/-- The only leader is listed with country `"??"`: its slot is in no row. -/
theorem bucket_country_loses_slots :
    let snap : EpochSnapshot :=
      ⟨⟨1, 1_000, 0⟩, [⟨"VAL", none, none, 100, some "??", none, none, none, none⟩],
        (∅ : SortedMap String (List ℕ)).insert "VAL" [0]⟩
    (buildSlotMap snap).size = 1 ∧
      ((summarize basisPoints snap (buildSlotMap snap)).countries.map
        CountrySummary.slotCount).sum = 0 ∧
          ¬Conserves snap (buildSlotMap snap)
            (summarize basisPoints snap (buildSlotMap snap)) := by
  intro snap
  have hbucket : (countSlots (buildSlotMap snap).values).1.valueOf "??" = 1 := by decide
  have hsum := sum_slotCount_add basisPoints snap (buildSlotMap snap)
  have hsize : (buildSlotMap snap).size = 1 := by decide
  refine ⟨hsize, by omega, fun h => ?_⟩
  have hslots : ((summarize basisPoints snap (buildSlotMap snap)).countries.map
      CountrySummary.slotCount).sum = (buildSlotMap snap).size := h.slots
  omega

end SolanaBench.LeaderMap
