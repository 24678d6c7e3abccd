import Mathlib.Data.List.Basic
import Mathlib.Data.List.Infix
import Mathlib.Data.Nat.Notation

/-!
# Numbers given out within a batch

Every batch carries a label and numbers its items from zero on. Label and number tell
any two different items apart exactly when batches of one label agree, place by place, as far
as both of them go.
-/

namespace BatchNumbers

variable {α κ : Type*}

/-- Two lists that agree wherever both have an item: one starts the other. -/
theorem prefix_or_prefix_iff {l l' : List α} :
    l <+: l' ∨ l' <+: l ↔ ∀ (n : ℕ) (x y : α), l[n]? = some x → l'[n]? = some y → x = y := by
  have hstart : ∀ {a b : List α}, a <+: b →
      ∀ (n : ℕ) (x y : α), a[n]? = some x → b[n]? = some y → x = y := by
    rintro a b ⟨rest, rfl⟩ n x y hx hy
    obtain ⟨hn, -⟩ := List.getElem?_eq_some_iff.mp hx
    rw [List.getElem?_append_left hn] at hy
    exact Option.some.inj (hx.symm.trans hy)
  refine ⟨fun h => h.elim hstart fun h n x y hx hy => (hstart h n y x hy hx).symm, ?_⟩
  induction l generalizing l' with
  | nil => exact fun _ => Or.inl List.nil_prefix
  | cons x l ih =>
    intro h
    cases l' with
    | nil => exact Or.inr List.nil_prefix
    | cons y l' =>
      obtain rfl : x = y := h 0 x y rfl rfl
      have hrest := @ih l' fun n => h (n + 1)
      simpa only [List.prefix_cons_inj] using hrest

/-- The items of all batches, each with its number and the label of its batch. -/
def numbered (batches : List (κ × List α)) : List (α × ℕ × κ) :=
  batches.flatMap fun b => b.2.zipIdx.map fun e => (e.1, e.2, b.1)

@[simp] theorem numbered_nil : numbered ([] : List (κ × List α)) = [] := rfl

@[simp] theorem numbered_append (bs cs : List (κ × List α)) :
    numbered (bs ++ cs) = numbered bs ++ numbered cs := List.flatMap_append

theorem numbered_singleton (k : κ) (l : List α) :
    numbered [(k, l)] = l.zipIdx.map fun e => (e.1, e.2, k) := List.flatMap_singleton _ _

theorem mem_numbered {batches : List (κ × List α)} {x : α} {n : ℕ} {k : κ} :
    (x, n, k) ∈ numbered batches ↔ ∃ l, (k, l) ∈ batches ∧ l[n]? = some x := by
  simp only [numbered, List.mem_flatMap, List.mem_map, Prod.exists, Prod.mk.injEq]
  constructor
  · rintro ⟨k', l, hmem, x', n', hx, rfl, rfl, rfl⟩
    exact ⟨l, hmem, List.mem_zipIdx_iff_getElem?.mp hx⟩
  · rintro ⟨l, hmem, hx⟩
    exact ⟨k, l, hmem, x, n, List.mem_zipIdx_iff_getElem?.mpr hx, rfl, rfl, rfl⟩

/-- Numbers that start over in each batch are enough exactly when no label is used twice,
up to batches that start alike. -/
theorem told_apart_iff {batches : List (κ × List α)} :
    (∀ x ∈ numbered batches, ∀ y ∈ numbered batches, x.1 ≠ y.1 → x.2 ≠ y.2) ↔
      ∀ b ∈ batches, ∀ c ∈ batches, b.1 = c.1 → b.2 <+: c.2 ∨ c.2 <+: b.2 := by
  constructor
  · rintro h ⟨k, l⟩ hb ⟨k', l'⟩ hc rfl
    refine prefix_or_prefix_iff.mpr fun n x y hx hy => ?_
    by_contra hne
    exact h _ (mem_numbered.mpr ⟨l, hb, hx⟩) _ (mem_numbered.mpr ⟨l', hc, hy⟩) hne rfl
  · rintro h ⟨x, n, k⟩ hx ⟨y, m, k'⟩ hy hne heq
    obtain ⟨rfl, rfl⟩ := Prod.mk.inj heq
    obtain ⟨l, hb, hx⟩ := mem_numbered.mp hx
    obtain ⟨l', hc, hy⟩ := mem_numbered.mp hy
    exact hne (prefix_or_prefix_iff.mp (h _ hb _ hc rfl) n x y hx hy)

end BatchNumbers
