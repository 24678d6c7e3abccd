import SolanaBench.Lib.EventMachine

/-!
# Machines joined by a queue

Two machines run side by side. What the first one sends goes into a queue, from which the
second one takes its inputs, in order and when it likes. Besides, the second one has inputs
of its own. A run of the pair is a run of each machine, and what the second one has taken is
a first part of what the first one has sent.
-/

variable {σ ι ο τ κ ω α β ρ : Type*}

/-- How a machine takes `α`s from a queue, under circumstances `ρ`, and inputs `β` beside it. -/
structure Intake (α β ρ κ : Type*) where
  recv : ρ → α → κ
  aside : β → κ
  passed? : κ → Option α
  passed_recv : ∀ r a, passed? (recv r a) = some a
  passed_aside : ∀ b, passed? (aside b) = none

/-- The two states, the queue, and the inputs that each machine has had. -/
structure Piped (σ ι α τ κ : Type*) where
  upstream : σ
  queue : List α := []
  downstream : τ
  given : List ι := []
  taken : List κ := []

inductive PipeInput (ι ρ β : Type*)
  | up (i : ι)
  /-- The second machine takes the next item of the queue. -/
  | down (r : ρ)
  | aside (b : β)

namespace EventMachine

def putUp (M : EventMachine σ ι ο) (sent? : ο → Option α) (st : Piped σ ι α τ κ) (i : ι) :
    Piped σ ι α τ κ :=
  let r := M.step st.upstream i
  { st with
    upstream := r.1
    queue := st.queue ++ r.2.filterMap sent?
    given := st.given ++ [i] }

def takeDown (N : EventMachine τ κ ω) (st : Piped σ ι α τ κ) (rest : List α) (k : κ) :
    Piped σ ι α τ κ × List ω :=
  let r := N.step st.downstream k
  ({ st with queue := rest, downstream := r.1, taken := st.taken ++ [k] }, r.2)

/-- With an empty queue the second machine waits. -/
def pipe (M : EventMachine σ ι ο) (sent? : ο → Option α) (N : EventMachine τ κ ω)
    (intake : Intake α β ρ κ) : EventMachine (Piped σ ι α τ κ) (PipeInput ι ρ β) ω where
  step st
    | .up i => (putUp M sent? st i, [])
    | .down r =>
      match st.queue with
      | [] => (st, [])
      | a :: rest => takeDown N st rest (intake.recv r a)
    | .aside b => takeDown N st st.queue (intake.aside b)

/-- Each machine has run on what it had. -/
structure Linked (M : EventMachine σ ι ο) (sent? : ο → Option α) (N : EventMachine τ κ ω)
    (intake : Intake α β ρ κ) (s : σ) (t : τ) (st : Piped σ ι α τ κ) (os : List ω) : Prop where
  upstream : st.upstream = (M.run s st.given).1
  passed : (M.run s st.given).2.filterMap sent? = st.taken.filterMap intake.passed? ++ st.queue
  downstream : st.downstream = (N.run t st.taken).1
  outputs : os = (N.run t st.taken).2

section

variable {M : EventMachine σ ι ο} {sent? : ο → Option α} {N : EventMachine τ κ ω}
  {intake : Intake α β ρ κ} {s : σ} {t : τ} {st : Piped σ ι α τ κ} {os : List ω}

theorem Linked.putUp (h : Linked M sent? N intake s t st os) (i : ι) :
    Linked M sent? N intake s t (putUp M sent? st i) os where
  upstream := by
    rw [EventMachine.putUp, run_snoc_fst, ← h.upstream]
  passed := by
    simp only [EventMachine.putUp, run_snoc_snd, List.filterMap_append, ← h.upstream]
    rw [h.passed, List.append_assoc]
  downstream := h.downstream
  outputs := h.outputs

theorem Linked.takeDown (h : Linked M sent? N intake s t st os) {rest : List α} {k : κ}
    (hrest : st.queue = (intake.passed? k).toList ++ rest) :
    Linked M sent? N intake s t (takeDown N st rest k).1 (os ++ (takeDown N st rest k).2) where
  upstream := h.upstream
  passed := by
    have hpassed := h.passed
    rw [hrest] at hpassed
    simp only [EventMachine.takeDown, List.filterMap_append, List.append_assoc]
    rw [hpassed]
    cases hk : intake.passed? k <;> simp [hk]
  downstream := by
    simp only [EventMachine.takeDown, run_snoc_fst, ← h.downstream]
  outputs := by
    simp only [EventMachine.takeDown, run_snoc_snd, ← h.downstream]
    rw [h.outputs]

theorem Linked.step (h : Linked M sent? N intake s t st os) (x : PipeInput ι ρ β) :
    Linked M sent? N intake s t ((pipe M sent? N intake).step st x).1
      (os ++ ((pipe M sent? N intake).step st x).2) := by
  cases x with
  | up i =>
    simp only [pipe, List.append_nil]
    exact h.putUp i
  | down r =>
    simp only [pipe]
    split
    · rw [List.append_nil]
      exact h
    · next a rest hqueue =>
      refine h.takeDown ?_
      rw [hqueue, intake.passed_recv]
      rfl
  | aside b =>
    refine h.takeDown ?_
    rw [intake.passed_aside]
    rfl

end

/-- A run of the pair, from the two states and an empty queue. -/
theorem linked_run (M : EventMachine σ ι ο) (sent? : ο → Option α) (N : EventMachine τ κ ω)
    (intake : Intake α β ρ κ) (s : σ) (t : τ) (xs : List (PipeInput ι ρ β)) :
    Linked M sent? N intake s t ((pipe M sent? N intake).run { upstream := s, downstream := t } xs).1
      ((pipe M sent? N intake).run { upstream := s, downstream := t } xs).2 :=
  (pipe M sent? N intake).run_rule (fun _ st os => Linked M sent? N intake s t st os)
    { upstream := s, downstream := t } ⟨rfl, rfl, rfl, rfl⟩ (fun _ _ _ x h => h.step x) xs

end EventMachine
