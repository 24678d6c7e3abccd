import Mathlib.Data.List.Induction
import SolanaBench.Lib.Splits

/-!
# Deterministic machines that answer each input with a list of outputs

A component that owns its state and serves one message at a time is an
`EventMachine`. `run` folds it over an input list and collects the outputs in
order. The rules are invariants that may mention the inputs consumed and the outputs
produced so far, for every run or for the runs whose steps all meet a condition.
-/

/-- One input is answered by a successor state and the outputs emitted on the way. -/
structure EventMachine (σ ι ο : Type*) where
  step : σ → ι → σ × List ο

namespace EventMachine

variable {σ τ ι κ ο π : Type*} (M : EventMachine σ ι ο)

def run : σ → List ι → σ × List ο
  | s, [] => (s, [])
  | s, i :: is =>
    let r := M.step s i
    let t := run r.1 is
    (t.1, r.2 ++ t.2)

@[simp] theorem run_nil (s : σ) : M.run s [] = (s, []) := rfl

theorem run_cons (s : σ) (i : ι) (is : List ι) :
    M.run s (i :: is) =
      ((M.run (M.step s i).1 is).1, (M.step s i).2 ++ (M.run (M.step s i).1 is).2) := rfl

@[simp] theorem run_cons_fst (s : σ) (i : ι) (is : List ι) :
    (M.run s (i :: is)).1 = (M.run (M.step s i).1 is).1 := rfl

@[simp] theorem run_cons_snd (s : σ) (i : ι) (is : List ι) :
    (M.run s (i :: is)).2 = (M.step s i).2 ++ (M.run (M.step s i).1 is).2 := rfl

theorem run_append (s : σ) (is js : List ι) :
    M.run s (is ++ js) =
      ((M.run (M.run s is).1 js).1, (M.run s is).2 ++ (M.run (M.run s is).1 js).2) := by
  induction is generalizing s with
  | nil => simp
  | cons i is ih => simp [run_cons, ih]

@[simp] theorem run_append_fst (s : σ) (is js : List ι) :
    (M.run s (is ++ js)).1 = (M.run (M.run s is).1 js).1 := by rw [run_append]

@[simp] theorem run_append_snd (s : σ) (is js : List ι) :
    (M.run s (is ++ js)).2 = (M.run s is).2 ++ (M.run (M.run s is).1 js).2 := by rw [run_append]

theorem run_snoc (s : σ) (is : List ι) (i : ι) :
    M.run s (is ++ [i]) =
      ((M.step (M.run s is).1 i).1, (M.run s is).2 ++ (M.step (M.run s is).1 i).2) := by
  rw [run_append, run_cons, run_nil, List.append_nil]

theorem run_snoc_fst (s : σ) (is : List ι) (i : ι) :
    (M.run s (is ++ [i])).1 = (M.step (M.run s is).1 i).1 := by rw [run_snoc]

theorem run_snoc_snd (s : σ) (is : List ι) (i : ι) :
    (M.run s (is ++ [i])).2 = (M.run s is).2 ++ (M.step (M.run s is).1 i).2 := by rw [run_snoc]

/-- The history rule. `J` sees the inputs consumed, the state and the outputs
produced; it holds at every point of a run once one step preserves it. -/
theorem run_rule (J : List ι → σ → List ο → Prop) (s : σ) (h0 : J [] s [])
    (hstep : ∀ is t os i, J is t os → J (is ++ [i]) (M.step t i).1 (os ++ (M.step t i).2))
    (is : List ι) : J is (M.run s is).1 (M.run s is).2 := by
  induction is using List.reverseRecOn with
  | nil => exact h0
  | append_singleton is i ih =>
    have h := hstep is _ _ i ih
    simpa using h

/-- A state invariant kept by every step holds after every run. -/
theorem run_invariant (I : σ → Prop) {s : σ} (h0 : I s)
    (hstep : ∀ t i, I t → I (M.step t i).1) (is : List ι) : I (M.run s is).1 :=
  M.run_rule (fun _ t _ => I t) s h0 (fun _ t _ i h => hstep t i h) is

/-- Every output of a run is one of some step. -/
theorem exists_step_of_mem_run {s : σ} {is : List ι} {o : ο} (h : o ∈ (M.run s is).2) :
    ∃ pre i post, is = pre ++ i :: post ∧ o ∈ (M.step (M.run s pre).1 i).2 := by
  induction is generalizing s with
  | nil => cases h
  | cons i is ih =>
    rcases List.mem_append.mp h with h | h
    · exact ⟨[], i, is, rfl, h⟩
    · obtain ⟨pre, j, post, rfl, ho⟩ := ih h
      exact ⟨i :: pre, j, post, rfl, ho⟩

/-- What `f` reads off the steps of a run. -/
def readings (f : σ → ι → List κ) : σ → List ι → List κ
  | _, [] => []
  | s, i :: is => f s i ++ readings f (M.step s i).1 is

theorem readings_append (f : σ → ι → List κ) (s : σ) (is js : List ι) :
    M.readings f s (is ++ js) = M.readings f s is ++ M.readings f (M.run s is).1 js := by
  induction is generalizing s with
  | nil => rfl
  | cons i is ih => simp [readings, ih]

theorem readings_snoc (f : σ → ι → List κ) (s : σ) (is : List ι) (i : ι) :
    M.readings f s (is ++ [i]) = M.readings f s is ++ f (M.run s is).1 i := by
  rw [readings_append]
  simp [readings]

theorem mem_readings {f : σ → ι → List κ} {s : σ} {is : List ι} {k : κ}
    (h : k ∈ M.readings f s is) : ∃ t i, k ∈ f t i := by
  induction is generalizing s with
  | nil => cases h
  | cons i is ih =>
    rcases List.mem_append.mp h with h | h
    · exact ⟨s, i, h⟩
    · exact ih h

/-- Every reading of a run is one of some step. -/
theorem exists_split_of_mem_readings {f : σ → ι → List κ} {s : σ} {is : List ι} {k : κ}
    (h : k ∈ M.readings f s is) :
    ∃ pre i post, is = pre ++ i :: post ∧ k ∈ f (M.run s pre).1 i := by
  induction is generalizing s with
  | nil => cases h
  | cons i is ih =>
    rcases List.mem_append.mp h with h | h
    · exact ⟨[], i, is, rfl, h⟩
    · obtain ⟨pre, j, post, rfl, hk⟩ := ih h
      exact ⟨i :: pre, j, post, rfl, hk⟩

/-! ## Runs whose steps all meet a condition -/

/-- Every step of the run from `s` on `is` meets `C`. -/
def Along (C : σ → ι → Prop) (s : σ) (is : List ι) : Prop :=
  EverySplit (fun pre i => C (M.run s pre).1 i) is

instance {C : σ → ι → Prop} [∀ s i, Decidable (C s i)] (s : σ) (is : List ι) :
    Decidable (M.Along C s is) := EverySplit.decidable

theorem along_snoc_iff (C : σ → ι → Prop) (s : σ) (is : List ι) (i : ι) :
    M.Along C s (is ++ [i]) ↔ M.Along C s is ∧ C (M.run s is).1 i := EverySplit.snoc_iff

/-- Nothing is read off a run iff nothing is read off its steps. -/
theorem readings_eq_nil_iff (f : σ → ι → List κ) (s : σ) (is : List ι) :
    M.readings f s is = [] ↔ M.Along (fun t i => f t i = []) s is := by
  induction is using List.reverseRecOn with
  | nil => exact ⟨fun _ => EverySplit.nil, fun _ => rfl⟩
  | append_singleton is i ih => rw [readings_snoc, along_snoc_iff, List.append_eq_nil_iff, ih]

variable {M}

/-- The history rule for such runs. -/
theorem along_rule (C : σ → ι → Prop) (J : List ι → σ → List ο → Prop) {s : σ} (h0 : J [] s [])
    (hstep : ∀ is t os i, C t i → J is t os → J (is ++ [i]) (M.step t i).1 (os ++ (M.step t i).2))
    {is : List ι} (h : M.Along C s is) : J is (M.run s is).1 (M.run s is).2 := by
  induction is using List.reverseRecOn with
  | nil => exact h0
  | append_singleton is i ih =>
    obtain ⟨his, hi⟩ := EverySplit.snoc_iff.mp h
    have hnext := hstep is _ _ i hi (ih his)
    simpa using hnext

/-- Where a law holds of what one step emits exactly under `C`, it holds of a run exactly
when every step meets `C`. -/
theorem along_iff_outputs {C : σ → ι → Prop} {I : σ → Prop} {Q : ο → Prop} {s : σ} (h0 : I s)
    (hstep : ∀ t i, I t → I (M.step t i).1)
    (hout : ∀ t i, I t → ((∀ o ∈ (M.step t i).2, Q o) ↔ C t i)) (is : List ι) :
    M.Along C s is ↔ ∀ o ∈ (M.run s is).2, Q o := by
  induction is using List.reverseRecOn with
  | nil => exact ⟨fun _ o ho => by simp at ho, fun _ => EverySplit.nil⟩
  | append_singleton is i ih =>
    have hi := hout _ i (M.run_invariant I h0 hstep is)
    have hsplit : M.Along C s (is ++ [i]) ↔ M.Along C s is ∧ C (M.run s is).1 i :=
      EverySplit.snoc_iff
    rw [hsplit, ih, ← hi]
    simp only [run_append_snd, run_cons_snd, run_nil, List.append_nil, List.forall_mem_append]

/-- Where every step gives out or holds what it takes in, up to one it may lose, a run
balances exactly when no step loses anything. -/
theorem along_iff_balanced (loses : σ → ι → Bool) (taken : List ι → ℕ) (given : List ο → ℕ)
    (held : σ → ℕ) {s : σ} (h0 : taken [] = given [] + held s)
    (hgiven : ∀ os ps, given (os ++ ps) = given os + given ps)
    (hstep : ∀ is i, given (M.step (M.run s is).1 i).2 + held (M.step (M.run s is).1 i).1 +
      (if loses (M.run s is).1 i then 1 else 0) + taken is =
        held (M.run s is).1 + taken (is ++ [i])) (is : List ι) :
    taken is = given (M.run s is).2 + held (M.run s is).1 ↔
      M.Along (fun t i => loses t i = false) s is := by
  -- what is missing counts the steps that lost something
  have hlost : ∃ lost, taken is = given (M.run s is).2 + held (M.run s is).1 + lost ∧
      (lost = 0 ↔ M.Along (fun t i => loses t i = false) s is) := by
    induction is using List.reverseRecOn with
    | nil => exact ⟨0, h0, fun _ => EverySplit.nil, fun _ => rfl⟩
    | append_singleton is i ih =>
      obtain ⟨lost, heq, hzero⟩ := ih
      have hi := hstep is i
      refine ⟨lost + if loses (M.run s is).1 i then 1 else 0, ?_, ?_⟩
      · rw [run_append_fst, run_append_snd, run_cons_fst, run_cons_snd, run_nil, List.append_nil,
          hgiven]
        dsimp only
        omega
      · unfold Along at hzero ⊢
        rw [EverySplit.snoc_iff, ← hzero]
        cases hl : loses (M.run s is).1 i <;> simp [hl]
  obtain ⟨lost, heq, hzero⟩ := hlost
  rw [← hzero]
  omega

variable (M)

/-! ## History variables -/

/-- The same machine with a variable that only records. -/
def withHistory {η : Type*} (record : σ → ι → List ο → η → η) : EventMachine (σ × η) ι ο where
  step h i := (((M.step h.1 i).1, record h.1 i (M.step h.1 i).2 h.2), (M.step h.1 i).2)

theorem run_withHistory {η : Type*} (record : σ → ι → List ο → η → η) (h : σ × η)
    (is : List ι) : ((M.withHistory record).run h is).1.1 = (M.run h.1 is).1 ∧
      ((M.withHistory record).run h is).2 = (M.run h.1 is).2 := by
  induction is generalizing h with
  | nil => exact ⟨rfl, rfl⟩
  | cons i is ih =>
    have h' := ih ((M.withHistory record).step h i).1
    refine ⟨h'.1, ?_⟩
    rw [run_cons_snd, run_cons_snd, h'.2]
    rfl

/-- Recording does not change which runs meet a condition on the machine's own state. -/
theorem along_withHistory {η : Type*} (record : σ → ι → List ο → η → η) (C : σ → ι → Prop)
    (h : σ × η) (is : List ι) :
    (M.withHistory record).Along (fun g i => C g.1 i) h is ↔ M.Along C h.1 is := by
  unfold Along
  simp only [run_withHistory]

end EventMachine
