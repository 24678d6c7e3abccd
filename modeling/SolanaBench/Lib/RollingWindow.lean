import Mathlib.Data.List.Induction
import Mathlib.Order.Bounds.Defs
import SolanaBench.Lib.SortedMap

/-! A map that follows its highest key: each write is followed by the removal of the keys
that lie more than a window below the highest one. After any writes it holds, on the
window, what the writes of each key alone would leave. -/
namespace RollingWindow

variable {ν υ : Type*}

/-- Remove keys from the front until the first one lies in the window. -/
def evict (window : ℕ) (m : SortedMap ℕ ν) : SortedMap ℕ ν :=
  match m.lastKeyValue with
  | some e => if e.1 > window then m.dropWhile fun k => decide (k < e.1 - window) else m
  | none => m

theorem get?_evict {m : SortedMap ℕ ν} {window top k : ℕ}
    (hle : ∀ j v, m.get? j = some v → j ≤ top) (htop : ∃ v, m.get? top = some v) :
    (evict window m).get? k = if top - window ≤ k then m.get? k else none := by
  obtain ⟨v, hv⟩ := htop
  have hmem := SortedMap.get?_eq_some_iff.mp hv
  unfold evict
  cases hlast : m.lastKeyValue with
  | none =>
    rw [SortedMap.lastKeyValue_eq_none.mp hlast] at hmem
    cases hmem
  | some e =>
    have hlastMem : e ∈ m.entries := List.mem_of_getLast? hlast
    have he : e.1 = top := le_antisymm (hle e.1 e.2 (SortedMap.get?_eq_some_iff.mpr hlastMem))
      (SortedMap.le_lastKeyValue hlast _ hmem)
    dsimp only
    rw [he]
    split
    · rw [SortedMap.dropWhile_eq_retain, SortedMap.get?_retain]
      · by_cases hk : top - window ≤ k
        · rw [if_pos hk]
          cases m.get? k <;> simp [not_lt.mpr hk]
        · simp [hk, not_le.mp hk]
      · intro i j hij hj
        simp only [decide_eq_true_eq] at hj ⊢
        omega
    · rw [if_pos (by omega)]

/-! ## Runs of writes -/

section

variable (key : υ → ℕ) (next : Option ν → υ → ν) (window : ℕ)

def write (m : SortedMap ℕ ν) (u : υ) : SortedMap ℕ ν :=
  evict window (m.insert (key u) (next (m.get? (key u)) u))

def writes (us : List υ) : SortedMap ℕ ν := us.foldl (write key next window) ∅

/-- The highest key that was ever written. -/
def top (us : List υ) : ℕ := us.foldl (fun t u => max t (key u)) 0

/-- What the writes of one key alone leave. -/
def value (us : List υ) (k : ℕ) : Option ν :=
  us.foldl (fun v u => if k = key u then some (next v u) else v) none

variable {key next window} {us : List υ} {u : υ} {k : ℕ}

theorem top_snoc : top key (us ++ [u]) = max (top key us) (key u) := by
  unfold top
  rw [List.foldl_append]
  rfl

theorem value_snoc :
    value key next (us ++ [u]) k =
      if k = key u then some (next (value key next us k) u) else value key next us k := by
  unfold value
  rw [List.foldl_append]
  rfl

theorem writes_snoc :
    writes key next window (us ++ [u]) = write key next window (writes key next window us) u := by
  unfold writes
  rw [List.foldl_append]
  rfl

/-- The highest key lies in the window exactly if every key does. -/
theorem top_sub_le_iff : top key us - window ≤ k ↔ ∀ u ∈ us, key u - window ≤ k := by
  induction us using List.reverseRecOn with
  | nil => simp [top]
  | append_singleton us u ih =>
    have hmax : max (top key us) (key u) - window ≤ k ↔
        top key us - window ≤ k ∧ key u - window ≤ k := by omega
    rw [top_snoc, hmax, ih]
    simp [or_imp, forall_and]

theorem le_top {v : ν} (h : value key next us k = some v) : k ≤ top key us := by
  induction us using List.reverseRecOn generalizing v with
  | nil => cases h
  | append_singleton us u ih =>
    rw [value_snoc] at h
    rw [top_snoc]
    split at h
    · exact le_max_of_le_right (le_of_eq ‹_›)
    · exact le_max_of_le_left (ih h)

theorem value_top (us : List υ) : top key us = 0 ∨ ∃ v, value key next us (top key us) = some v := by
  induction us using List.reverseRecOn with
  | nil => exact Or.inl rfl
  | append_singleton us u ih =>
    rw [top_snoc, value_snoc]
    rcases le_total (top key us) (key u) with hle | hle
    · rw [max_eq_right hle, if_pos rfl]
      exact Or.inr ⟨_, rfl⟩
    · rw [max_eq_left hle]
      refine ih.imp_right ?_
      rintro ⟨v, hv⟩
      split
      · exact ⟨_, rfl⟩
      · exact ⟨v, hv⟩

section step

variable {m : SortedMap ℕ ν}
  (hm : ∀ j, m.get? j = if top key us - window ≤ j then value key next us j else none)

include hm

/-- Outside the window the written key starts afresh, and is removed again. -/
theorem get?_insert_next (hk : max (top key us) (key u) - window ≤ k) :
    (m.insert (key u) (next (m.get? (key u)) u)).get? k = value key next (us ++ [u]) k := by
  rw [SortedMap.get?_insert, value_snoc]
  split
  · rw [← ‹k = key u›, hm, if_pos (by omega)]
  · rw [hm, if_pos (by omega)]

theorem le_top_of_insert {v w : ν} {j : ℕ} (h : (m.insert (key u) w).get? j = some v) :
    j ≤ max (top key us) (key u) := by
  rw [SortedMap.get?_insert, hm j] at h
  split at h
  · exact le_max_of_le_right (le_of_eq ‹_›)
  · split at h
    · exact le_max_of_le_left (le_top h)
    · cases h

/-- The highest key is the new one, or it was never evicted. -/
theorem exists_insert_top (u : υ) (w : ν) :
    ∃ v, (m.insert (key u) w).get? (max (top key us) (key u)) = some v := by
  rw [SortedMap.get?_insert, hm]
  rcases le_or_gt (top key us) (key u) with hle | hlt
  · rw [max_eq_right hle, if_pos rfl]
    exact ⟨w, rfl⟩
  · obtain ⟨v, hv⟩ : ∃ v, value key next us (top key us) = some v :=
      (value_top us).resolve_left (Nat.ne_zero_of_lt hlt)
    rw [max_eq_left hlt.le, if_neg hlt.ne', if_pos (Nat.sub_le _ _)]
    exact ⟨v, hv⟩

theorem get?_write :
    (write key next window m u).get? k =
      if top key (us ++ [u]) - window ≤ k then value key next (us ++ [u]) k else none := by
  rw [write, get?_evict (fun _ _ => le_top_of_insert hm) (exists_insert_top hm u _), top_snoc]
  split
  · exact get?_insert_next hm ‹_›
  · rfl

end step

/-- The cutoff only rises, so a key of the window has never been removed. -/
theorem get?_writes (us : List υ) (k : ℕ) :
    (writes key next window us).get? k =
      if top key us - window ≤ k then value key next us k else none := by
  induction us using List.reverseRecOn generalizing k with
  | nil => simp [writes, value]
  | append_singleton us u ih =>
    rw [writes_snoc]
    exact get?_write ih

end

/-! ## Looking back -/

section

variable {α : Type*} {f : ℕ → Option α}

/-- The greatest key from `lo` on and below `hi` that has a value, with its value. -/
def IsNearest (f : ℕ → Option α) (lo hi : ℕ) : Option (ℕ × α) → Prop
  | some e => IsGreatest {t | lo ≤ t ∧ t < hi ∧ (f t).isSome} e.1 ∧ f e.1 = some e.2
  | none => ∀ t, lo ≤ t → t < hi → f t = none

/-- Step back from `hi` by each distance, as far as 0. -/
def lookBack (f : ℕ → Option α) (hi : ℕ) : List ℕ → Option (ℕ × α)
  | [] => none
  | back :: backs =>
    if hi < back then none
    else
      match f (hi - back) with
      | some a => some (hi - back, a)
      | none => lookBack f hi backs

/-- A key without a value changes no answer. -/
theorem IsNearest.succ {lo hi : ℕ} {answer : Option (ℕ × α)} (h : IsNearest f lo hi answer)
    (hnone : f hi = none) : IsNearest f lo (hi + 1) answer := by
  have hbelow : ∀ t, t < hi + 1 → t = hi ∨ t < hi := fun t ht => by omega
  cases answer with
  | none =>
    intro t hlo hhi
    rcases hbelow t hhi with rfl | hhi
    · exact hnone
    · exact h t hlo hhi
  | some e =>
    obtain ⟨⟨⟨hlo, hhi, hsome⟩, hgreatest⟩, hvalue⟩ := h
    refine ⟨⟨⟨hlo, Nat.lt_succ_of_lt hhi, hsome⟩, fun t ht => ?_⟩, hvalue⟩
    obtain ⟨hlo, hhi, hsome⟩ := ht
    rcases hbelow t hhi with rfl | hhi
    · rw [hnone] at hsome
      cases hsome
    · exact hgreatest ⟨hlo, hhi, hsome⟩

/-- From `back` on, the keys below `hi + 1 - back` are looked at. -/
theorem lookBack_isNearest_from (f : ℕ → Option α) (hi back n : ℕ) :
    IsNearest f (hi + 1 - (back + n)) (hi + 1 - back)
      (lookBack f hi (List.range' back n)) := by
  induction n generalizing back with
  | zero =>
    intro t hlo hhi
    omega
  | succ n ih =>
    rw [List.range'_succ]
    unfold lookBack
    split
    · intro t hlo hhi
      omega
    · split
      · next hnot a ha =>
        refine ⟨⟨⟨by dsimp only; omega, by dsimp only; omega, by simp [ha]⟩, fun t ht => ?_⟩, ha⟩
        have hhi := ht.2.1
        dsimp only
        omega
      · next hnot hnone =>
        have hrest := (ih (back + 1)).succ (by rwa [Nat.add_sub_add_right])
        have hlo : hi + 1 - (back + 1 + n) = hi + 1 - (back + (n + 1)) := by omega
        have hhi : hi + 1 - (back + 1) + 1 = hi + 1 - back := by omega
        rwa [hlo, hhi] at hrest

theorem lookBack_isNearest (f : ℕ → Option α) (hi n : ℕ) :
    IsNearest f (hi - n) hi (lookBack f hi (List.range' 1 n)) := by
  have h := lookBack_isNearest_from f hi 1 n
  rwa [Nat.add_comm 1, Nat.add_sub_add_right, Nat.add_sub_cancel] at h

end

end RollingWindow
