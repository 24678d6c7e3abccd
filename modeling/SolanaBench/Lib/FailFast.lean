import Mathlib.Data.List.Basic

/-!
# Loops that stop at the first error

`failFast f` runs over a list of parts and changes each in place. It collects what the
rounds return and stops at the first that fails; the parts behind that one stay as they
were. The rules say what holds of every part in any case, and of part and result at each
position where no round has failed.
-/

variable {σ ε β : Type*}

def failFast (f : σ → σ × Except ε β) : List σ → List σ × Except ε (List β)
  | [] => ([], .ok [])
  | x :: xs =>
    match f x with
    | (y, .error e) => (y :: xs, .error e)
    | (y, .ok b) =>
      let r := failFast f xs
      (y :: r.1, r.2.map (b :: ·))

namespace FailFast

variable {f : σ → σ × Except ε β} {xs ys : List σ} {bs : List β}

/-- What a round keeps holds of every part, changed or not. -/
theorem forall_mem {P Q : σ → Prop} (hround : ∀ x, P x → Q (f x).1) (hrest : ∀ x, P x → Q x)
    (h : ∀ x ∈ xs, P x) : ∀ y ∈ (failFast f xs).1, Q y := by
  induction xs with
  | nil => exact fun y hy => absurd hy List.not_mem_nil
  | cons x xs ih =>
    obtain ⟨hx, hxs⟩ := List.forall_mem_cons.mp h
    have hhead := hround x hx
    rw [failFast]
    split
    · next y e hf =>
      rw [hf] at hhead
      exact List.forall_mem_cons.mpr ⟨hhead, fun z hz => hrest z (hxs z hz)⟩
    · next y b hf =>
      rw [hf] at hhead
      exact List.forall_mem_cons.mpr ⟨hhead, ih hxs⟩

theorem cons_ok {x : σ} (h : failFast f (x :: xs) = (ys, .ok bs)) :
    ∃ y b zs cs, f x = (y, .ok b) ∧ failFast f xs = (zs, .ok cs) ∧ ys = y :: zs ∧
      bs = b :: cs := by
  rw [failFast] at h
  split at h
  · cases h
  · next y b hf =>
    cases hrest : (failFast f xs).2 with
    | error e => simp [hrest, Except.map] at h
    | ok cs =>
      obtain ⟨rfl, rfl⟩ : y :: (failFast f xs).1 = ys ∧ b :: cs = bs := by
        simpa [hrest, Except.map] using h
      exact ⟨y, b, _, cs, hf, Prod.ext rfl hrest, rfl, rfl⟩

/-- A loop that goes through has taken each part through its round. -/
theorem of_ok (h : failFast f xs = (ys, .ok bs)) (i : ℕ) :
    (xs[i]? = none ∧ ys[i]? = none) ∨
      ∃ x y b, xs[i]? = some x ∧ ys[i]? = some y ∧ bs[i]? = some b ∧ f x = (y, .ok b) := by
  induction xs generalizing ys bs i with
  | nil =>
    cases h
    exact Or.inl ⟨rfl, rfl⟩
  | cons x xs ih =>
    obtain ⟨y, b, zs, cs, hx, hxs, rfl, rfl⟩ := cons_ok h
    cases i with
    | zero => exact Or.inr ⟨x, y, b, rfl, rfl, rfl, hx⟩
    | succ i => exact ih hxs i

theorem of_input (h : failFast f xs = (ys, .ok bs)) {i : ℕ} {x : σ} (hx : xs[i]? = some x) :
    ∃ y b, ys[i]? = some y ∧ bs[i]? = some b ∧ f x = (y, .ok b) := by
  rcases of_ok h i with ⟨hnone, -⟩ | ⟨x', y, b, hx', hy, hb, hf⟩
  · cases hnone.symm.trans hx
  · obtain rfl := Option.some.inj (hx'.symm.trans hx)
    exact ⟨y, b, hy, hb, hf⟩

theorem of_output (h : failFast f xs = (ys, .ok bs)) {i : ℕ} {y : σ} (hy : ys[i]? = some y) :
    ∃ x b, xs[i]? = some x ∧ bs[i]? = some b ∧ f x = (y, .ok b) := by
  rcases of_ok h i with ⟨-, hnone⟩ | ⟨x, y', b, hx, hy', hb, hf⟩
  · cases hnone.symm.trans hy
  · obtain rfl := Option.some.inj (hy'.symm.trans hy)
    exact ⟨x, b, hx, hb, hf⟩

end FailFast
