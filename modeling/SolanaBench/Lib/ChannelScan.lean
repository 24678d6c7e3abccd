import Mathlib.Data.List.Basic

/-!
# Looking for one message in a FIFO channel

A receiver that wants one message takes messages from the front until it has the one
it looks for, the channel is empty, or it has tried often enough. What it takes on the
way is gone.
-/

namespace ChannelScan

variable {α : Type*} (p : α → Bool)

/-- The message found, and the channel after at most `n` receives. -/
def scan : ℕ → List α → Option α × List α
  | 0, queue => (none, queue)
  | _ + 1, [] => (none, [])
  | n + 1, m :: queue => if p m then (some m, queue) else scan n queue

theorem scan_fst (n : ℕ) (queue : List α) : (scan p n queue).1 = (queue.take n).find? p := by
  induction n generalizing queue with
  | zero => rfl
  | succ n ih =>
    cases queue with
    | nil => rfl
    | cons m queue =>
      by_cases hm : p m
      · simp [scan, hm]
      · simp [scan, hm, ih]

/-- Nothing is put back. -/
theorem scan_snd_suffix (n : ℕ) (queue : List α) : (scan p n queue).2 <:+ queue := by
  induction n generalizing queue with
  | zero => exact List.suffix_rfl
  | succ n ih =>
    cases queue with
    | nil => exact List.suffix_rfl
    | cons m queue =>
      by_cases hm : p m
      · simp [scan, hm, List.suffix_cons]
      · simpa [scan, hm] using (ih queue).trans (List.suffix_cons m queue)

variable {p}

theorem scan_some {n : ℕ} {queue : List α} {m : α} (h : (scan p n queue).1 = some m) :
    m ∈ queue ∧ p m := by
  rw [scan_fst] at h
  exact ⟨List.mem_of_mem_take (List.mem_of_find?_eq_some h), List.find?_some h⟩

theorem scan_isSome {n : ℕ} {queue : List α} :
    (scan p n queue).1.isSome ↔ ∃ m ∈ queue.take n, p m := by
  rw [scan_fst, List.find?_isSome]

end ChannelScan
