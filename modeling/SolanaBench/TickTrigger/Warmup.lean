import SolanaBench.EntrySources.Observation
import SolanaBench.Lib.EventMachine

/-! The warmup gate of a source: observations are dropped until one of a later slot than the
first arrives, and forwarded from then on. -/
namespace SolanaBench.TickTrigger.Warmup

/-- The locals of the thread, and the slot it publishes. -/
structure State where
  startupSlot : Option ℕ := none
  warm : Bool := false
  firstFullSlot : ℕ := 0
  deriving DecidableEq, Repr

/-- What `recv_timeout` returns until the thread is stopped or its channel is closed. -/
inductive Input
  | ok (obs : EntryObservation)
  | timeout
  deriving DecidableEq, Repr

/-- The output channel is never full, so that every `try_send` forwards. -/
def gate : EventMachine State Input EntryObservation where
  step s
    | .ok obs =>
      if s.warm then (s, [obs])
      else
        match s.startupSlot with
        | none => ({ s with startupSlot := some obs.slot }, [])
        | some s0 =>
          if obs.slot ≤ s0 then (s, [])
          else ({ s with warm := true, firstFullSlot := obs.slot }, [obs])
    | .timeout => (s, [])

def Input.obs : Input → Option EntryObservation
  | .ok obs => some obs
  | .timeout => none

/-- What was delivered to the gate. -/
def delivered (is : List Input) : List EntryObservation := is.filterMap Input.obs

/-- What should pass: the slots after the first one delivered. -/
def laterSlots : List EntryObservation → List EntryObservation
  | [] => []
  | first :: rest => rest.filter fun o => decide (first.slot < o.slot)

/-- No observation of the first slot or before comes after one of a later slot. -/
def StartupFirst : List EntryObservation → Prop
  | [] => True
  | first :: rest => rest.Pairwise fun o p => p.slot ≤ first.slot → o.slot ≤ first.slot

/-! ## Runs -/

/-- A warm gate lets everything pass. -/
theorem run_warm {s : State} (hwarm : s.warm = true) (is : List Input) :
    gate.run s is = (s, delivered is) := by
  induction is with
  | nil => rfl
  | cons i is ih =>
    rw [EventMachine.run_cons]
    cases i with
    | timeout => exact Prod.ext (congrArg Prod.fst ih) (congrArg Prod.snd ih)
    | ok obs =>
      have hstep : gate.step s (.ok obs) = (s, [obs]) := if_pos hwarm
      rw [hstep]
      dsimp only
      rw [ih]
      rfl

/-- Before that, the leading observations of the startup slot and earlier ones are dropped. -/
theorem run_startup {s : State} {s0 : ℕ} (hwarm : s.warm = false) (hs0 : s.startupSlot = some s0)
    (is : List Input) :
    (gate.run s is).2 = (delivered is).dropWhile fun o => decide (o.slot ≤ s0) := by
  induction is with
  | nil => rfl
  | cons i is ih =>
    rw [EventMachine.run_cons_snd]
    cases i with
    | timeout => exact ih
    | ok obs =>
      have hdelivered : delivered (.ok obs :: is) = obs :: delivered is := rfl
      rw [hdelivered]
      by_cases hle : obs.slot ≤ s0
      · have hstep : gate.step s (.ok obs) = (s, []) := by simp [gate, hwarm, hs0, hle]
        rw [hstep, List.dropWhile_cons_of_pos (by simpa using hle)]
        exact ih
      · have hstep : gate.step s (.ok obs) =
            ({ s with warm := true, firstFullSlot := obs.slot }, [obs]) := by
          simp [gate, hwarm, hs0, hle]
        rw [hstep, List.dropWhile_cons_of_neg (by simpa using hle)]
        dsimp only
        rw [run_warm rfl]
        rfl

theorem run_gate (is : List Input) :
    (gate.run {} is).2 =
      match delivered is with
      | [] => []
      | first :: rest => rest.dropWhile fun o => decide (o.slot ≤ first.slot) := by
  induction is with
  | nil => rfl
  | cons i is ih =>
    rw [EventMachine.run_cons_snd]
    cases i with
    | timeout => exact ih
    | ok obs => exact run_startup rfl rfl is

/-- Exactly the later slots pass if and only if nothing of the first slot or before comes after
one of them. -/
theorem gate_forwards_iff (is : List Input) :
    (gate.run {} is).2 = laterSlots (delivered is) ↔ StartupFirst (delivered is) := by
  rw [run_gate]
  cases delivered is with
  | nil => exact iff_of_true rfl trivial
  | cons first rest =>
    have hfilter : (rest.filter fun o => decide (first.slot < o.slot)) =
        rest.filter fun o => !decide (o.slot ≤ first.slot) :=
      List.filter_congr fun o _ => by rw [← decide_not, decide_eq_decide, Nat.not_le]
    dsimp only [laterSlots, StartupFirst]
    rw [hfilter, dropWhile_eq_filter_iff]
    simp only [decide_eq_true_eq]

/-- An observation of which only the slot matters. -/
def ofSlot (slot : ℕ) : EntryObservation where
  source := .shredStream
  observedAt := 0
  slot := slot
  entryIndex := 0
  numHashes := 1
  entryHash := 0
  txCount := 0
  signatures := []

/-- An entry of startup slot 7 that arrives after the first entry of slot 8 passes. -/
theorem late_startup_entry_passes :
    let is := [Input.ok (ofSlot 7), .ok (ofSlot 8), .ok (ofSlot 7)]
    (gate.run {} is).2 = [ofSlot 8, ofSlot 7] ∧ laterSlots (delivered is) = [ofSlot 8] := by
  decide

end SolanaBench.TickTrigger.Warmup
