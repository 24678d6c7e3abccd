import Mathlib.Algebra.BigOperators.Group.List.Basic
import Mathlib.Algebra.GroupWithZero.Nat
import Mathlib.Algebra.Order.Group.Nat
import Mathlib.Data.List.Perm.Basic

/-!
# Sums over the members that are done

A list whose members get done one by one, each with a weight: what becomes of the
filtered list when one more is done, and when the weights of those done add up to all.
-/

namespace FilterSum

variable {α : Type*} {w : α → ℕ} {p q : α → Bool} {before after l : List α} {x : α}

def doneSum (w : α → ℕ) (p : α → Bool) (l : List α) : ℕ := ((l.filter p).map w).sum

theorem doneSum_append (l m : List α) : doneSum w p (l ++ m) = doneSum w p l + doneSum w p m := by
  simp [doneSum]

/-- One more member is done. -/
theorem filter_perm (hp : p x = false) (hq : q x) (hbefore : ∀ y ∈ before, q y = p y)
    (hafter : ∀ y ∈ after, q y = p y) :
    ((before ++ x :: after).filter q).Perm (x :: (before ++ x :: after).filter p) := by
  rw [List.filter_append, List.filter_append, List.filter_cons_of_pos hq,
    List.filter_cons_of_neg (by simp [hp]), List.filter_congr hbefore, List.filter_congr hafter]
  exact List.perm_middle

theorem doneSum_finish (hp : p x = false) (hq : q x) (hbefore : ∀ y ∈ before, q y = p y)
    (hafter : ∀ y ∈ after, q y = p y) :
    doneSum w q (before ++ x :: after) = w x + doneSum w p (before ++ x :: after) :=
  ((filter_perm hp hq hbefore hafter).map w).sum_eq

theorem doneSum_congr (h : ∀ y ∈ l, q y = p y) : doneSum w q l = doneSum w p l := by
  unfold doneSum
  rw [List.filter_congr h]

theorem doneSum_le (l : List α) : doneSum w p l ≤ (l.map w).sum := by
  induction l with
  | nil => rfl
  | cons x l ih =>
    unfold doneSum at *
    cases hx : p x <;> simp [hx] <;> omega

/-- The weights add up to all exactly if every member with a weight is done. -/
theorem doneSum_eq_iff : doneSum w p l = (l.map w).sum ↔ ∀ x ∈ l, w x ≠ 0 → p x := by
  induction l with
  | nil => simp [doneSum]
  | cons x l ih =>
    have hle := doneSum_le (w := w) (p := p) l
    rw [List.forall_mem_cons, ← ih]
    unfold doneSum at *
    cases hx : p x
    · rw [List.filter_cons_of_neg (by simp [hx]), List.map_cons, List.sum_cons]
      have hnot : (w x ≠ 0 → false = true) ↔ w x = 0 := by simp
      rw [hnot]
      omega
    · rw [List.filter_cons_of_pos hx, List.map_cons, List.map_cons, List.sum_cons, List.sum_cons]
      simp

/-- Nothing is counted of members of which none with a weight is done. -/
theorem doneSum_eq_zero (h : ∀ x ∈ l, w x ≠ 0 → p x = false) : doneSum w p l = 0 := by
  refine List.sum_eq_zero fun n hn => ?_
  obtain ⟨x, hx, rfl⟩ := List.mem_map.mp hn
  obtain ⟨hmem, hdone⟩ := List.mem_filter.mp hx
  by_contra hne
  exact absurd hdone (by rw [h x hmem hne]; simp)

/-! ## Offsets -/

/-- Each member with the weight of those before it, counted from `n`. -/
def offsets (w : α → ℕ) : ℕ → List α → List (α × ℕ)
  | _, [] => []
  | n, x :: l => (x, n) :: offsets w (n + w x) l

theorem offsets_append (n : ℕ) (l m : List α) :
    offsets w n (l ++ m) = offsets w n l ++ offsets w (n + (l.map w).sum) m := by
  induction l generalizing n with
  | nil => simp [offsets]
  | cons x l ih => simp [offsets, ih, Nat.add_assoc]

theorem mem_of_mem_offsets {n : ℕ} {e : α × ℕ} (h : e ∈ offsets w n l) : e.1 ∈ l := by
  induction l generalizing n with
  | nil => simp [offsets] at h
  | cons x l ih =>
    rcases List.mem_cons.mp h with rfl | h
    · exact List.mem_cons_self
    · exact List.mem_cons_of_mem x (ih h)

/-- One more member is done, with its offset. -/
theorem filter_offsets_perm (n : ℕ) (hp : p x = false) (hq : q x)
    (hbefore : ∀ y ∈ before, q y = p y) (hafter : ∀ y ∈ after, q y = p y) :
    ((offsets w n (before ++ x :: after)).filter fun e => q e.1).Perm
      ((x, n + (before.map w).sum) ::
        (offsets w n (before ++ x :: after)).filter fun e => p e.1) := by
  rw [offsets_append, offsets]
  refine filter_perm (x := (x, n + (before.map w).sum)) (p := fun e => p e.1)
    (q := fun e => q e.1) hp hq (fun e he => ?_) fun e he => ?_
  · exact hbefore e.1 (mem_of_mem_offsets he)
  · exact hafter e.1 (mem_of_mem_offsets he)

/-- Numbering all parts of the members is numbering each member's from its offset. -/
theorem zipIdx_flatMap {β γ : Type*} (f : α → List β) (g : β → γ) (n : ℕ) (l : List α) :
    ((l.flatMap f).map g).zipIdx n = (offsets (fun a => (f a).length) n l).flatMap
      fun e => ((f e.1).map g).zipIdx e.2 := by
  induction l generalizing n with
  | nil => rfl
  | cons x l ih =>
    rw [List.flatMap_cons, List.map_append, List.zipIdx_append, List.length_map, offsets,
      List.flatMap_cons, ← ih]

end FilterSum
