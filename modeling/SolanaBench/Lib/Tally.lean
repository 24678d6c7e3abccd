import Mathlib.Data.List.Induction
import SolanaBench.Lib.FilterSum
import SolanaBench.Lib.SortedMap

/-!
# Adding up weights by key

`tally key w xs` is the map that `*map.entry(key(x)).or_insert(0) += w(x)` leaves, for each
`x` in turn. What it holds for one key, in total, and over any list of keys that has all of
those with a weight.
-/

namespace SortedMap

variable {κ α : Type*} [LinearOrder κ]

def addTo (m : SortedMap κ ℕ) (k : κ) (n : ℕ) : SortedMap κ ℕ :=
  m.insert k ((m.get? k).getD 0 + n)

def tally (key : α → κ) (w : α → ℕ) (xs : List α) : SortedMap κ ℕ :=
  xs.foldl (fun m x => m.addTo (key x) (w x)) ∅

/-- A sorted set, as `collect()` builds it. -/
def keySet (ks : List κ) : SortedMap κ Unit := ks.foldl (fun m k => m.insert k ()) ∅

def valueOf (m : SortedMap κ ℕ) (k : κ) : ℕ := (m.get? k).getD 0

variable {key : α → κ} {w : α → ℕ} {xs : List α} {x : α} {m : SortedMap κ ℕ} {k j : κ}

theorem valueOf_addTo (n : ℕ) :
    (m.addTo k n).valueOf j = if j = k then m.valueOf k + n else m.valueOf j := by
  unfold valueOf addTo
  rw [get?_insert]
  split <;> rfl

theorem weight_addTo (m : SortedMap κ ℕ) (k : κ) (n : ℕ) :
    weight id (m.addTo k n) = weight id m + n := by
  have h := weight_insert id m k ((m.get? k).getD 0 + n)
  rw [Option.map_id] at h
  unfold addTo
  simp only [id_eq] at h
  omega

theorem mem_keys_insert {ν : Type*} {m : SortedMap κ ν} {v : ν} :
    j ∈ (m.insert k v).keys ↔ j = k ∨ j ∈ m.keys := by
  rw [mem_keys_iff, mem_keys_iff]
  simp only [get?_insert]
  split <;> simp [*]

theorem tally_snoc : tally key w (xs ++ [x]) = (tally key w xs).addTo (key x) (w x) := by
  unfold tally
  rw [List.foldl_append]
  rfl

theorem mem_keys_tally : j ∈ (tally key w xs).keys ↔ ∃ x ∈ xs, key x = j := by
  induction xs using List.reverseRecOn with
  | nil => simp [tally, keys, EmptyCollection.emptyCollection, SortedMap.empty]
  | append_singleton xs x ih =>
    rw [tally_snoc, addTo, mem_keys_insert, ih]
    simp [or_and_right, exists_or, or_comm, eq_comm]

/-- A key has the weights of the items with that key. -/
theorem valueOf_tally :
    (tally key w xs).valueOf k = FilterSum.doneSum w (fun x => decide (key x = k)) xs := by
  induction xs using List.reverseRecOn with
  | nil => rfl
  | append_singleton xs x ih =>
    rw [tally_snoc, valueOf_addTo, FilterSum.doneSum_append, ← ih]
    by_cases hk : k = key x
    · simp [hk, FilterSum.doneSum]
    · have hk' : ¬key x = k := fun h => hk h.symm
      simp [hk, hk', FilterSum.doneSum]

/-- All keys together have all the weights. -/
theorem weight_tally (key : α → κ) (w : α → ℕ) (xs : List α) :
    weight id (tally key w xs) = (xs.map w).sum := by
  induction xs using List.reverseRecOn with
  | nil => rfl
  | append_singleton xs x ih => rw [tally_snoc, weight_addTo, ih]; simp

theorem mem_keySet {ks : List κ} : j ∈ (keySet ks).keys ↔ j ∈ ks := by
  induction ks using List.reverseRecOn with
  | nil => simp [keySet, keys, EmptyCollection.emptyCollection, SortedMap.empty]
  | append_singleton ks k ih =>
    have hsnoc : keySet (ks ++ [k]) = (keySet ks).insert k () := by
      unfold keySet
      rw [List.foldl_append]
      rfl
    rw [hsnoc, mem_keys_insert, ih]
    simp [or_comm]

theorem sum_valueOf_keys (m : SortedMap κ ℕ) : (m.keys.map m.valueOf).sum = weight id m := by
  unfold weight keys
  rw [List.map_map]
  congr 1
  refine List.map_congr_left fun e he => ?_
  have hget : m.get? e.1 = some e.2 := get?_eq_some_iff.mpr he
  simp [valueOf, hget]

theorem mem_keys_of_valueOf (h : m.valueOf k ≠ 0) : k ∈ m.keys := by
  cases hget : m.get? k with
  | none => exact absurd (by simp [valueOf, hget]) h
  | some v => exact mem_keys_iff.mpr ⟨v, hget⟩

/-- Summing over distinct keys sums up the map, if every key with a weight is among them. -/
theorem sum_valueOf {ks : List κ} (hnd : ks.Nodup) (hks : ∀ k, m.valueOf k ≠ 0 → k ∈ ks) :
    (ks.map m.valueOf).sum = weight id m := by
  -- both sides only count the keys that lie in both lists
  have hleft := FilterSum.doneSum_eq_iff (w := m.valueOf) (p := fun k => decide (k ∈ m.keys))
    (l := ks)
  have hright := FilterSum.doneSum_eq_iff (w := m.valueOf) (p := fun k => decide (k ∈ ks))
    (l := m.keys)
  rw [← hleft.mpr fun k _ hk => by simpa using mem_keys_of_valueOf hk, ← sum_valueOf_keys,
    ← hright.mpr fun k _ hk => by simpa using hks k hk]
  refine (List.Perm.map _ ((List.perm_ext_iff_of_nodup (hnd.filter _)
    (keys_nodup.filter _)).mpr fun k => ?_)).sum_eq
  simp [and_comm]

end SortedMap
