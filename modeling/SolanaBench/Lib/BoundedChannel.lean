import SolanaBench.Lib.EventMachine

/-!
# Bounded channels

A sender that does not wait offers its messages to a channel, which takes a message when its
receiver is there and it has room, and refuses it otherwise. What the channel holds and what
it refused are together what was offered.
-/

namespace BoundedChannel

variable {α : Type*}

/-- The channel after one message, and what it refused. -/
def trySend (capacity : ℕ) (connected : Bool) (queue : List α) (x : α) : List α × List α :=
  if connected = true ∧ queue.length < capacity then (queue ++ [x], []) else (queue, [x])

/-- A channel that is offered messages. It puts out those it refuses. -/
def machine (capacity : ℕ) (connected : Bool) : EventMachine (List α) α α where
  step := trySend capacity connected

section

variable {capacity : ℕ} {connected : Bool} {queue xs : List α} {x : α}

theorem trySend_append (capacity : ℕ) (connected : Bool) (queue : List α) (x : α) :
    (trySend capacity connected queue x).1 ++ (trySend capacity connected queue x).2 =
      queue ++ [x] := by
  unfold trySend
  split
  · exact List.append_nil _
  · rfl

/-- A message is refused by a channel that is full, or that nobody receives from. -/
theorem full_of_trySend {y : α} (h : y ∈ (trySend capacity connected queue x).2) :
    connected = false ∨ capacity ≤ (trySend capacity connected queue x).1.length := by
  unfold trySend at h ⊢
  split at h
  · cases h
  · next hrefused =>
    rw [if_neg hrefused]
    cases connected with
    | false => exact Or.inl rfl
    | true => exact Or.inr (Nat.not_lt.mp fun hroom => hrefused ⟨rfl, hroom⟩)

theorem length_le_trySend (capacity : ℕ) (connected : Bool) (queue : List α) (x : α) :
    queue.length ≤ (trySend capacity connected queue x).1.length := by
  unfold trySend
  split
  · rw [List.length_append]
    exact Nat.le_add_right _ _
  · exact Nat.le_refl _

/-- What it holds and what it refused are what it held and what it was offered. -/
theorem perm_run (capacity : ℕ) (connected : Bool) (queue xs : List α) :
    (((machine capacity connected).run queue xs).1 ++
      ((machine capacity connected).run queue xs).2).Perm (queue ++ xs) := by
  induction xs generalizing queue with
  | nil => exact List.Perm.refl _
  | cons x xs ih =>
    rw [EventMachine.run_cons_fst, EventMachine.run_cons_snd, List.append_cons queue x xs,
      ← trySend_append capacity connected queue x]
    refine (List.perm_append_comm_assoc _ _ _).trans ?_
    refine ((ih _).append_left _).trans ?_
    rw [← List.append_assoc]
    exact (List.perm_append_comm).append_right xs

theorem mem_of_mem_run {y : α} (h : y ∈ ((machine capacity connected).run queue xs).1) :
    y ∈ queue ∨ y ∈ xs :=
  List.mem_append.mp ((perm_run capacity connected queue xs).subset (List.mem_append_left _ h))

/-- The messages that it took are some of those it was offered, in order. -/
theorem run_sublist (capacity : ℕ) (connected : Bool) (queue xs : List α) :
    ((machine capacity connected).run queue xs).1.Sublist (queue ++ xs) := by
  induction xs generalizing queue with
  | nil =>
    rw [List.append_nil]
    exact List.Sublist.refl queue
  | cons x xs ih =>
    rw [EventMachine.run_cons_fst, List.append_cons]
    refine (ih _).trans (List.Sublist.append_right ?_ xs)
    rw [← trySend_append capacity connected queue x]
    exact List.sublist_append_left _ _

theorem length_le_run (capacity : ℕ) (connected : Bool) (queue xs : List α) :
    queue.length ≤ ((machine capacity connected).run queue xs).1.length := by
  induction xs generalizing queue with
  | nil => exact Nat.le_refl _
  | cons x xs ih => exact Nat.le_trans (length_le_trySend capacity connected queue x) (ih _)

/-- A channel that refused something is full at the end, or nobody receives from it. -/
theorem full_of_run {y : α} (h : y ∈ ((machine capacity connected).run queue xs).2) :
    connected = false ∨ capacity ≤ ((machine capacity connected).run queue xs).1.length := by
  induction xs generalizing queue with
  | nil => cases h
  | cons x xs ih =>
    rcases List.mem_append.mp h with hnow | hlater
    · exact (full_of_trySend hnow).imp_right fun hfull =>
        Nat.le_trans hfull (length_le_run capacity connected _ xs)
    · exact ih hlater

end
end BoundedChannel
