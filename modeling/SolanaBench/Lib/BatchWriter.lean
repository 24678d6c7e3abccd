import Mathlib.Algebra.Order.Group.Nat
import Mathlib.Data.List.Flatten
import SolanaBench.Lib.EventMachine

/-!
# Writers that collect rows into batches

A writer buffers rows and hands them to a file in batches: when the buffer has `cap` rows,
when it waited in vain for a row, and when the last batch is more than `interval` ago. A batch
that the file refuses is dropped. The environment says with every input how the file would
take a batch, and what time it is.
-/

namespace BatchWriter

variable {ρ : Type*}

/-- The buffer, and the batches so far with what became of them. -/
structure State (ρ : Type*) where
  buffer : List ρ := []
  lastFlush : ℕ := 0
  batches : List (List ρ × Bool) := []

inductive Input (ρ : Type*)
  | row (r : ρ) (now : ℕ) (accepted : Bool)
  | timeout (now : ℕ) (accepted : Bool)

def flush (st : State ρ) (accepted : Bool) : State ρ :=
  { st with buffer := [], batches := st.batches ++ [(st.buffer, accepted)] }

def flushAt (st : State ρ) (now : ℕ) (accepted : Bool) : State ρ :=
  { flush st accepted with lastFlush := now }

/-- The check at the end of each iteration. -/
def flushOld (interval : ℕ) (st : State ρ) (now : ℕ) (accepted : Bool) : State ρ :=
  if st.buffer ≠ [] ∧ now - st.lastFlush > interval then flushAt st now accepted else st

def push (cap : ℕ) (st : State ρ) (r : ρ) (now : ℕ) (accepted : Bool) : State ρ :=
  let st := { st with buffer := st.buffer ++ [r] }
  if st.buffer.length ≥ cap then flushAt st now accepted else st

def machine (cap interval : ℕ) : EventMachine (State ρ) (Input ρ) Empty where
  step st
    | .row r now accepted => (flushOld interval (push cap st r now accepted) now accepted, [])
    | .timeout now accepted =>
      (flushOld interval (if st.buffer ≠ [] then flushAt st now accepted else st) now accepted, [])

/-- The end: what is left makes a last batch. -/
def close (st : State ρ) (accepted : Bool) : State ρ :=
  if st.buffer ≠ [] then flush st accepted else st

/-- The rows that the file took. -/
def written (st : State ρ) : List ρ := (st.batches.filter Prod.snd).flatMap Prod.fst

def Input.row? : Input ρ → Option ρ
  | .row r _ _ => some r
  | .timeout _ _ => none

def Input.time : Input ρ → ℕ
  | .row _ now _ => now
  | .timeout now _ => now

/-! ## The laws -/

/-- Every row is in one batch or in the buffer, in order, and no batch is empty or too long. -/
structure Batched (cap : ℕ) (rows : List ρ) (st : State ρ) : Prop where
  kept : st.batches.flatMap Prod.fst ++ st.buffer = rows
  nonempty : ∀ b ∈ st.batches, b.1 ≠ []
  short : ∀ b ∈ st.batches, b.1.length ≤ max cap 1
  room : st.buffer.length < max cap 1

/-- The rows with the times at which they came. -/
def arrivals (is : List (Input ρ)) : List (ρ × ℕ) :=
  is.filterMap fun i => i.row?.map fun r => (r, i.time)

/-- How many rows are in batches. -/
def State.handed (st : State ρ) : ℕ := (st.batches.flatMap Prod.fst).length

/-- What is in no batch came after the last one. -/
structure Timed (now : ℕ) (came : List (ρ × ℕ)) (st : State ρ) : Prop where
  kept : came.length = st.handed + st.buffer.length
  since : ∀ a ∈ came.drop st.handed, st.lastFlush ≤ a.2
  last : st.lastFlush ≤ now

/-- And the last batch was no longer than `interval` ago. -/
structure Fresh (interval now : ℕ) (came : List (ρ × ℕ)) (st : State ρ) : Prop
    extends Timed now came st where
  young : st.buffer ≠ [] → now - st.lastFlush ≤ interval

section

variable {cap interval now : ℕ} {rows : List ρ} {st : State ρ} {accepted : Bool} {r : ρ}
  {came : List (ρ × ℕ)}

theorem Batched.flush (h : Batched cap rows st) (hne : st.buffer ≠ []) (accepted : Bool) :
    Batched cap rows (flush st accepted) where
  kept := by simpa [BatchWriter.flush] using h.kept
  nonempty b hb := by
    rcases List.mem_append.mp hb with hb | hb
    · exact h.nonempty b hb
    · rw [List.mem_singleton.mp hb]
      exact hne
  short b hb := by
    rcases List.mem_append.mp hb with hb | hb
    · exact h.short b hb
    · rw [List.mem_singleton.mp hb]
      exact h.room.le
  room := lt_of_lt_of_le Nat.zero_lt_one (Nat.le_max_right cap 1)

theorem Batched.flushAt (h : Batched cap rows st) (hne : st.buffer ≠ []) (now : ℕ)
    (accepted : Bool) : Batched cap rows (flushAt st now accepted) :=
  ⟨(h.flush hne accepted).kept, (h.flush hne accepted).nonempty, (h.flush hne accepted).short,
    (h.flush hne accepted).room⟩

theorem Batched.flushOld (h : Batched cap rows st) (now : ℕ) (accepted : Bool) :
    Batched cap rows (flushOld interval st now accepted) := by
  unfold BatchWriter.flushOld
  split
  · next hold => exact h.flushAt hold.1 now accepted
  · exact h

theorem Batched.push (h : Batched cap rows st) (r : ρ) (now : ℕ) (accepted : Bool) :
    Batched cap (rows ++ [r]) (push cap st r now accepted) := by
  have hkept : st.batches.flatMap Prod.fst ++ (st.buffer ++ [r]) = rows ++ [r] := by
    rw [← List.append_assoc, h.kept]
  have hlen := h.room
  unfold BatchWriter.push BatchWriter.flushAt BatchWriter.flush
  dsimp only
  split
  · refine ⟨by simpa using hkept, fun b hb => ?_, fun b hb => ?_, lt_of_le_of_lt (Nat.zero_le _) h.room⟩
    · rcases List.mem_append.mp hb with hb | hb
      · exact h.nonempty b hb
      · rw [List.mem_singleton.mp hb]
        simp
    · rcases List.mem_append.mp hb with hb | hb
      · exact h.short b hb
      · rw [List.mem_singleton.mp hb, List.length_append, List.length_singleton]
        exact hlen
  · next hroom =>
    refine ⟨hkept, h.nonempty, h.short, ?_⟩
    dsimp only at hroom ⊢
    omega

theorem Batched.step (h : Batched cap rows st) (i : Input ρ) :
    Batched cap (rows ++ i.row?.toList) ((machine cap interval).step st i).1 := by
  cases i with
  | row r now accepted => exact (h.push r now accepted).flushOld now accepted
  | timeout now accepted =>
    rw [Input.row?, Option.toList_none, List.append_nil]
    refine Batched.flushOld ?_ now accepted
    split
    · next hne => exact h.flushAt hne now accepted
    · exact h

/-- The run lemma. -/
theorem batched_run (cap interval : ℕ) (start : ℕ) (is : List (Input ρ)) :
    Batched cap (is.filterMap Input.row?) ((machine cap interval).run { lastFlush := start } is).1 := by
  induction is using List.reverseRecOn with
  | nil => exact ⟨rfl, by simp, by simp, lt_of_lt_of_le Nat.zero_lt_one (Nat.le_max_right cap 1)⟩
  | append_singleton is i ih =>
    have hrows : (is ++ [i]).filterMap Input.row? = is.filterMap Input.row? ++ i.row?.toList := by
      cases hi : i.row? <;> simp [hi]
    rw [EventMachine.run_snoc_fst, hrows]
    exact ih.step i

/-- The file of a run that is closed: all rows, each in one batch. -/
theorem batched_close (h : Batched cap rows st) (accepted : Bool) :
    Batched cap rows (close st accepted) ∧ (close st accepted).buffer = [] := by
  unfold close
  split
  · next hne => exact ⟨h.flush hne accepted, rfl⟩
  · next hempty => exact ⟨h, not_not.mp hempty⟩

theorem Timed.flushAt {before : ℕ} (h : Timed before came st) (now : ℕ) (accepted : Bool) :
    Timed now came (flushAt st now accepted) := by
  have hall : (BatchWriter.flushAt st now accepted).handed = came.length := by
    rw [h.kept]
    simp [BatchWriter.flushAt, BatchWriter.flush, State.handed]
  refine ⟨hall.symm, fun a ha => ?_, le_rfl⟩
  rw [hall, List.drop_length] at ha
  exact absurd ha List.not_mem_nil

theorem Timed.flushOld (h : Timed now came st) (accepted : Bool) :
    Fresh interval now came (flushOld interval st now accepted) := by
  unfold BatchWriter.flushOld
  split
  · exact { h.flushAt now accepted with young := fun hne => absurd rfl hne }
  · next hyoung =>
    refine { h with young := fun hne => ?_ }
    by_contra hold
    exact hyoung ⟨hne, by omega⟩

theorem Timed.push {before : ℕ} (h : Timed before came st) (hclock : before ≤ now) (r : ρ)
    (accepted : Bool) : Timed now (came ++ [(r, now)]) (push cap st r now accepted) := by
  have hle : st.lastFlush ≤ now := h.last.trans hclock
  have hpushed : Timed now (came ++ [(r, now)]) { st with buffer := st.buffer ++ [r] } := by
    refine ⟨?_, fun a ha => ?_, hle⟩
    · have hhanded : State.handed { st with buffer := st.buffer ++ [r] } = st.handed := rfl
      rw [List.length_append, h.kept, hhanded, List.length_append, Nat.add_assoc]
      rfl
    · have hhanded : st.handed ≤ came.length := h.kept ▸ Nat.le_add_right _ _
      change a ∈ (came ++ [(r, now)]).drop st.handed at ha
      rw [List.drop_append_of_le_length hhanded] at ha
      rcases List.mem_append.mp ha with ha | ha
      · exact h.since a ha
      · rw [List.mem_singleton.mp ha]
        exact hle
  unfold BatchWriter.push
  dsimp only
  split
  · exact hpushed.flushAt now accepted
  · exact hpushed

/-- On a clock that does not go back, no row waits longer than `interval`. -/
theorem Fresh.step {before : ℕ} (h : Fresh interval before came st) {i : Input ρ}
    (hclock : before ≤ i.time) : Fresh interval i.time (came ++ arrivals [i])
      ((machine cap interval).step st i).1 := by
  cases i with
  | row r now accepted => exact (h.toTimed.push hclock r accepted).flushOld accepted
  | timeout now accepted =>
    have hnone : came ++ arrivals [Input.timeout now accepted] = came := List.append_nil came
    rw [hnone]
    simp only [machine]
    split
    · exact (h.toTimed.flushAt now accepted).flushOld accepted
    · exact Timed.flushOld ⟨h.kept, h.since, h.last.trans hclock⟩ accepted

/-- The times of a run that began at `start`. -/
def times (start : ℕ) (is : List (Input ρ)) : List ℕ := start :: is.map Input.time

theorem fresh_run (cap interval start : ℕ) (is : List (Input ρ))
    (hclock : (times start is).Pairwise (· ≤ ·)) : Fresh interval
      ((times start is).getLast (List.cons_ne_nil _ _)) (arrivals is)
      ((machine cap interval).run { lastFlush := start } is).1 := by
  induction is using List.reverseRecOn with
  | nil =>
    exact ⟨⟨rfl, fun a ha => absurd ha List.not_mem_nil, le_rfl⟩, fun hne => absurd rfl hne⟩
  | append_singleton is i ih =>
    have htimes : times start (is ++ [i]) = times start is ++ [i.time] := by
      unfold times
      rw [List.map_append]
      rfl
    have harrivals : arrivals (is ++ [i]) = arrivals is ++ arrivals [i] := List.filterMap_append
    rw [htimes] at hclock
    obtain ⟨hold, -, hlast⟩ := List.pairwise_append.mp hclock
    simp only [htimes, List.getLast_concat]
    rw [EventMachine.run_snoc_fst, harrivals]
    exact (ih hold).step (hlast _ (List.getLast_mem _) _ (List.mem_singleton_self _))

/-- What is still in the buffer came no longer than `interval` ago. -/
theorem Fresh.waits (h : Fresh interval now came st) : ∀ a ∈ came.drop st.handed,
    now - a.2 ≤ interval := by
  intro a ha
  have hne : st.buffer ≠ [] := by
    intro hempty
    have hkept := h.kept
    rw [hempty, List.length_nil, Nat.add_zero] at hkept
    rw [← hkept, List.drop_length] at ha
    exact List.not_mem_nil ha
  have hsince := h.since a ha
  have hyoung := h.young hne
  omega

/-- The rows of the file, if it refuses nothing. -/
theorem written_of_accepted (h : Batched cap rows st) (hbuffer : st.buffer = [])
    (hall : ∀ b ∈ st.batches, b.2 = true) : written st = rows := by
  have hfilter : st.batches.filter Prod.snd = st.batches :=
    List.filter_eq_self.mpr hall
  have hkept := h.kept
  rw [hbuffer, List.append_nil] at hkept
  rw [written, hfilter, hkept]

/-- In any case they are some of the rows, in order. -/
theorem written_sublist (h : Batched cap rows st) : (written st).Sublist rows := by
  rw [← h.kept]
  refine List.Sublist.trans ?_ (List.sublist_append_left _ _)
  exact (List.filter_sublist).flatMap Prod.fst

end

end BatchWriter
