import Mathlib.Data.List.Infix
import SolanaBench.FanOut.Schedule
import SolanaBench.Lib.EventMachine

/-! The schedule pump: it generates the schedule chunk by chunk and sends every entry that lies
within the lead of the slot counter. The counter, the stop flag and the receiver may change
between any two of its steps. -/
namespace SolanaBench.FanOut

/-- `generate_chunk_at`, with the slots reduced to `u64`. -/
def Schedule.releaseChunkAt (s : Schedule) (chunkIndex : ℕ) : List ScheduleEntry :=
  (s.generateChunkAt chunkIndex).map fun e => { e with slot := e.slot % 2 ^ 64 }

/-- The concatenation of the first `n` chunks; the chunk index counts on in `u64`. -/
def Schedule.releaseChunks (s : Schedule) (n : ℕ) : List ScheduleEntry :=
  (List.range n).flatMap fun i => s.releaseChunkAt (i % 2 ^ 64)

namespace SchedulePump

/-- Where the pump stands: at the head of its loop, or in the loop that drains the buffer, with
the slot it read and the cutoff it made of it. -/
inductive Phase
  | top
  | draining (current leadCutoff : ℕ)
  | exited
  deriving DecidableEq, Repr

structure State where
  currentSlot : ℕ
  stop : Bool := false
  closed : Bool := false
  chunkIndex : ℕ := 0
  buffered : List ScheduleEntry := []
  phase : Phase := .top

/-- The counter, the stop flag and the channel are changed from outside; `pump` is the pump's
next step. While the channel is full the pump takes none. -/
inductive Input
  | setSlot (slot : ℕ)
  | setStop
  | close
  | pump
  deriving DecidableEq, Repr

/-- A sent entry, with the slot that the pump had read and the counter at the time. -/
structure Sent where
  entry : ScheduleEntry
  current : ℕ
  counter : ℕ
  deriving DecidableEq, Repr

variable (s : Schedule) (leadSlots : ℕ)

/-- The head of the loop: read the counter and refill an empty buffer. -/
def begin (t : State) : State :=
  let current := t.currentSlot
  let t :=
    if t.buffered = [] then
      { t with
        buffered := s.releaseChunkAt t.chunkIndex
        chunkIndex := (t.chunkIndex + 1) % 2 ^ 64 }
    else t
  { t with phase := .draining current ((current + leadSlots) % 2 ^ 64) }

def pump (t : State) : State × List Sent :=
  match t.phase with
  | .exited => (t, [])
  | .top => (if t.stop then { t with phase := .exited } else begin s leadSlots t, [])
  | .draining current leadCutoff =>
    match t.buffered with
    | [] => ({ t with phase := .top }, [])
    | entry :: buffered =>
      if entry.slot > leadCutoff ∧ current > 0 then ({ t with phase := .top }, [])
      else if t.closed then ({ t with buffered := buffered, phase := .exited }, [])
      else ({ t with buffered := buffered }, [⟨entry, current, t.currentSlot⟩])

def machine : EventMachine State Input Sent where
  step t
    | .setSlot slot => ({ t with currentSlot := slot }, [])
    | .setStop => ({ t with stop := true }, [])
    | .close => ({ t with closed := true }, [])
    | .pump => pump s leadSlots t

/-! ## Prefixes of the schedule -/

/-- What was sent and what is buffered make up the chunks generated so far, up to what an exited
pump took from the buffer and could not send. -/
def Accounts (t : State) (sent : List Sent) : Prop :=
  ∃ n lost, t.chunkIndex = n % 2 ^ 64 ∧
    sent.map Sent.entry ++ (lost ++ t.buffered) = s.releaseChunks n ∧
      (t.phase ≠ .exited → lost = [])

variable {s leadSlots} {t : State} {sent : List Sent}

theorem releaseChunks_succ (s : Schedule) (n : ℕ) :
    s.releaseChunks (n + 1) = s.releaseChunks n ++ s.releaseChunkAt (n % 2 ^ 64) := by
  simp [Schedule.releaseChunks, List.range_succ, List.flatMap_append]

theorem Accounts.isPrefix (h : Accounts s t sent) :
    ∃ n, sent.map Sent.entry <+: s.releaseChunks n := by
  obtain ⟨n, lost, -, hn, -⟩ := h
  exact ⟨n, lost ++ t.buffered, hn⟩

/-- A refill puts the next chunk behind everything sent. -/
theorem Accounts.begin (h : Accounts s t sent) (hphase : t.phase = .top) :
    Accounts s (begin s leadSlots t) sent := by
  obtain ⟨n, lost, hidx, hn, hlost⟩ := h
  obtain rfl := hlost (by simp [hphase])
  rw [List.nil_append] at hn
  unfold SchedulePump.begin
  by_cases hnil : t.buffered = []
  · refine ⟨n + 1, [], ?_, ?_, fun _ => rfl⟩
    · simp [hnil, hidx]
    · rw [hnil, List.append_nil] at hn
      simp [hnil, hidx, hn, releaseChunks_succ]
  · exact ⟨n, [], by simp [hnil, hidx], by simp [hnil, hn], fun _ => rfl⟩

theorem Accounts.pump (h : Accounts s t sent) :
    Accounts s (pump s leadSlots t).1 (sent ++ (pump s leadSlots t).2) := by
  obtain ⟨n, lost, hidx, hn, hlost⟩ := id h
  unfold SchedulePump.pump
  cases hphase : t.phase with
  | exited => simpa using h
  | top =>
    obtain rfl := hlost (by simp [hphase])
    dsimp only
    rw [List.append_nil]
    split
    · exact ⟨n, [], hidx, hn, fun _ => rfl⟩
    · exact h.begin hphase
  | draining current leadCutoff =>
    obtain rfl := hlost (by simp [hphase])
    dsimp only
    split
    · rw [List.append_nil]
      exact ⟨n, [], hidx, hn, fun _ => rfl⟩
    · next entry buffered hbuffered =>
      rw [hbuffered] at hn
      split
      · rw [List.append_nil]
        exact ⟨n, [], hidx, by rw [← hn, ← hbuffered], fun _ => rfl⟩
      · split
        · rw [List.append_nil]
          exact ⟨n, [entry], hidx, hn, fun hexited => absurd rfl hexited⟩
        · refine ⟨n, [], hidx, ?_, fun _ => rfl⟩
          rw [← hn]
          simp

theorem accounts_run (s : Schedule) (leadSlots currentSlot : ℕ) (is : List Input) :
    Accounts s ((machine s leadSlots).run { currentSlot } is).1
      ((machine s leadSlots).run { currentSlot } is).2 := by
  refine (machine s leadSlots).run_rule (fun _ t sent => Accounts s t sent) _ ?_ ?_ is
  · exact ⟨0, [], rfl, rfl, fun _ => rfl⟩
  · intro is t sent i h
    cases i with
    | pump => exact h.pump
    | setSlot slot => exact (List.append_nil sent).symm ▸ h
    | setStop => exact (List.append_nil sent).symm ▸ h
    | close => exact (List.append_nil sent).symm ▸ h

/-! ## The lead -/

theorem mem_pump {o : Sent} (ho : o ∈ (pump s leadSlots t).2) :
    ∃ leadCutoff, t.phase = .draining o.current leadCutoff ∧ o.counter = t.currentSlot ∧
      (0 < o.current → o.entry.slot ≤ leadCutoff) := by
  unfold pump at ho
  cases hphase : t.phase with
  | exited => simp [hphase] at ho
  | top => simp [hphase] at ho
  | draining current leadCutoff =>
    rw [hphase] at ho
    dsimp only at ho
    split at ho
    · simp at ho
    · split at ho
      · simp at ho
      · next entry buffered hbuffered hgo =>
        split at ho
        · simp at ho
        · rw [List.mem_singleton] at ho
          subst ho
          refine ⟨leadCutoff, rfl, rfl, fun hpos => ?_⟩
          by_contra hlt
          exact hgo ⟨not_le.mp hlt, hpos⟩

/-- The pump drains with the slot it read when it was last at the head of its loop. -/
theorem phase_pump {current leadCutoff : ℕ}
    (h : (pump s leadSlots t).1.phase = .draining current leadCutoff) :
    t.phase = .draining current leadCutoff ∨
      current = t.currentSlot ∧ leadCutoff = (current + leadSlots) % 2 ^ 64 := by
  unfold pump at h
  cases hphase : t.phase with
  | exited => simp [hphase] at h
  | top =>
    rw [hphase] at h
    dsimp only at h
    split at h
    · cases h
    · unfold begin at h
      simp only [Phase.draining.injEq] at h
      obtain ⟨rfl, rfl⟩ := h
      exact Or.inr ⟨rfl, rfl⟩
  | draining current' leadCutoff' =>
    rw [hphase] at h
    dsimp only at h
    split at h
    · cases h
    · split at h
      · cases h
      · split at h
        · cases h
        · exact Or.inl h

/-- The pump changes nothing that is changed from outside. -/
theorem pump_frame : (pump s leadSlots t).1.currentSlot = t.currentSlot ∧
    (pump s leadSlots t).1.stop = t.stop ∧ (pump s leadSlots t).1.closed = t.closed := by
  unfold pump begin
  split
  · exact ⟨rfl, rfl, rfl⟩
  · split
    · exact ⟨rfl, rfl, rfl⟩
    · dsimp only
      split <;> exact ⟨rfl, rfl, rfl⟩
  · split
    · exact ⟨rfl, rfl, rfl⟩
    · split
      · exact ⟨rfl, rfl, rfl⟩
      · split <;> exact ⟨rfl, rfl, rfl⟩

theorem phase_pump_ne_exited (hstop : t.stop = false) (hopened : t.closed = false)
    (hphase : t.phase ≠ .exited) : (pump s leadSlots t).1.phase ≠ .exited := by
  unfold pump
  cases h : t.phase with
  | exited => exact absurd h hphase
  | top => simp [hstop, begin]
  | draining current leadCutoff =>
    dsimp only
    split
    · simp
    · split
      · simp
      · simp [hopened]

/-- The cutoff in use lies the lead above the slot that was read, or has wrapped. -/
def Lead (leadSlots : ℕ) (t : State) : Prop :=
  ∀ current leadCutoff, t.phase = .draining current leadCutoff →
    leadCutoff = (current + leadSlots) % 2 ^ 64

theorem Lead.step (h : Lead leadSlots t) (i : Input) :
    Lead leadSlots ((machine s leadSlots).step t i).1 := by
  cases i with
  | pump =>
    intro current leadCutoff hphase
    rcases phase_pump hphase with hphase | ⟨-, hcutoff⟩
    · exact h current leadCutoff hphase
    · exact hcutoff
  | setSlot slot => exact h
  | setStop => exact h
  | close => exact h

theorem Lead.of_sent (h : Lead leadSlots t) {i : Input} {o : Sent}
    (ho : o ∈ ((machine s leadSlots).step t i).2) (hpos : 0 < o.current) :
    o.entry.slot ≤ o.current + leadSlots := by
  cases i with
  | pump =>
    obtain ⟨leadCutoff, hphase, -, hle⟩ := mem_pump ho
    have hcutoff := h _ _ hphase
    exact (hle hpos).trans (hcutoff.trans_le (Nat.mod_le _ _))
  | setSlot slot => cases ho
  | setStop => cases ho
  | close => cases ho

theorem lead_run (s : Schedule) (leadSlots currentSlot : ℕ) (is : List Input) :
    ∀ o ∈ ((machine s leadSlots).run { currentSlot } is).2,
      0 < o.current → o.entry.slot ≤ o.current + leadSlots := by
  have hJ := (machine s leadSlots).run_rule (fun _ t sent => Lead leadSlots t ∧
    ∀ o ∈ sent, 0 < o.current → o.entry.slot ≤ o.current + leadSlots) { currentSlot }
    ⟨fun _ _ h => (by cases h), fun _ ho => (by cases ho)⟩ ?_ is
  · exact hJ.2
  · rintro is t sent i ⟨hlead, hsent⟩
    refine ⟨hlead.step i, fun o ho => ?_⟩
    rcases List.mem_append.mp ho with ho | ho
    · exact hsent o ho
    · exact hlead.of_sent ho

/-! ## A counter that never goes back -/

/-- No store lowers the counter. -/
def Rises (t : State) : Input → Prop
  | .setSlot slot => t.currentSlot ≤ slot
  | _ => True

instance (t : State) (i : Input) : Decidable (Rises t i) :=
  match i with
  | .setSlot slot => inferInstanceAs (Decidable (t.currentSlot ≤ slot))
  | .setStop => isTrue trivial
  | .close => isTrue trivial
  | .pump => isTrue trivial

/-- The slot that was read is not above the counter. -/
def ReadBelow (t : State) : Prop :=
  ∀ current leadCutoff, t.phase = .draining current leadCutoff → current ≤ t.currentSlot

theorem ReadBelow.step (h : ReadBelow t) {i : Input} (hi : Rises t i) :
    ReadBelow ((machine s leadSlots).step t i).1 := by
  cases i with
  | pump =>
    intro current leadCutoff hphase
    have hcounter : ((machine s leadSlots).step t .pump).1.currentSlot = t.currentSlot :=
      pump_frame.1
    rw [hcounter]
    rcases phase_pump hphase with hphase | ⟨hcurrent, -⟩
    · exact h current leadCutoff hphase
    · exact hcurrent.le
  | setSlot slot => exact fun current leadCutoff hphase => (h current leadCutoff hphase).trans hi
  | setStop => exact h
  | close => exact h

theorem ReadBelow.of_sent (h : ReadBelow t) {i : Input} {o : Sent}
    (ho : o ∈ ((machine s leadSlots).step t i).2) : o.current ≤ o.counter := by
  cases i with
  | pump =>
    obtain ⟨leadCutoff, hphase, hcounter, -⟩ := mem_pump ho
    rw [hcounter]
    exact h _ _ hphase
  | setSlot slot => cases ho
  | setStop => cases ho
  | close => cases ho

theorem current_le_counter {leadSlots currentSlot : ℕ} {is : List Input}
    (h : (machine s leadSlots).Along Rises { currentSlot } is) :
    ∀ o ∈ ((machine s leadSlots).run { currentSlot } is).2, o.current ≤ o.counter := by
  have hJ := EventMachine.along_rule (M := machine s leadSlots) Rises (fun _ t sent => ReadBelow t ∧
    ∀ o ∈ sent, o.current ≤ o.counter)
    ⟨fun _ _ h => (by cases h), fun _ ho => (by cases ho)⟩ ?_ h
  · exact hJ.2
  · rintro is t sent i hi ⟨hread, hsent⟩
    refine ⟨hread.step hi, fun o ho => ?_⟩
    rcases List.mem_append.mp ho with ho | ho
    · exact hsent o ho
    · exact hread.of_sent ho

/-- The pump sends a prefix of the schedule, and a pass that read a positive slot sends nothing
beyond the lead of that slot, nor of the counter if it never goes back. -/
theorem pump_sends_in_order (s : Schedule) (leadSlots currentSlot : ℕ) (is : List Input) :
    let sent := ((machine s leadSlots).run { currentSlot } is).2
    (∃ n, sent.map Sent.entry <+: s.releaseChunks n) ∧
      (∀ o ∈ sent, 0 < o.current → o.entry.slot ≤ o.current + leadSlots) ∧
        ((machine s leadSlots).Along Rises { currentSlot } is →
          ∀ o ∈ sent, 0 < o.current → o.entry.slot ≤ o.counter + leadSlots) := by
  have hlead := lead_run s leadSlots currentSlot is
  refine ⟨(accounts_run s leadSlots currentSlot is).isPrefix, hlead, fun hrises o ho hpos => ?_⟩
  have hle := current_le_counter hrises o ho
  have hslot := hlead o ho hpos
  omega

/-- One slot a chunk from slot 100 on, at tick 1. -/
def fromSlot100 : Schedule := ⟨42, 100, 1, fun _ _ => 1⟩

/-- The counter moves from 95 to 96 between the read and the send. -/
theorem pump_sends_in_order_rising :
    ((machine fromSlot100 10).run { currentSlot := 95 } [.pump, .setSlot 96, .pump]).2 =
        [⟨⟨100, 1⟩, 95, 96⟩] ∧
      ∀ o ∈ ((machine fromSlot100 10).run { currentSlot := 95 } [.pump, .setSlot 96, .pump]).2,
        0 < o.current → o.entry.slot ≤ o.counter + 10 :=
  ⟨by decide, (pump_sends_in_order fromSlot100 10 95 [.pump, .setSlot 96, .pump]).2.2 (by decide)⟩

/-- A pass that read slot 0 still sends slot 100 when the counter stands at 5, with a lead of
10. -/
theorem sent_beyond_lead :
    ((machine fromSlot100 10).run { currentSlot := 0 } [.pump, .setSlot 5, .pump]).2 =
      [⟨⟨100, 1⟩, 0, 5⟩] ∧ ¬100 ≤ 5 + 10 := by
  decide

end SchedulePump
end SolanaBench.FanOut
