import Mathlib.Data.List.Perm.Basic
import SolanaBench.Lib.EventMachine

/-!
# What becomes of the elements a machine is given

An element given to a machine is held by it, closed with a line of its own, or lost. If
every step divides the elements so, nothing is lost over a run exactly when no step
loses anything.
-/

/-- A reading of the elements that a machine is given, holds, closes and loses. -/
structure Custody {σ ι ο : Type*} (M : EventMachine σ ι ο) (α γ : Type*) where
  given : ι → List α
  held : σ → List α
  lines : List ο → List γ
  closed : σ → ι → List (α × γ)
  lost : σ → ι → List α
  lines_nil : lines [] = []
  lines_append : ∀ os ps, lines (os ++ ps) = lines os ++ lines ps
  step : ∀ s i, (held s ++ given i).Perm
    (held (M.step s i).1 ++ ((closed s i).map Prod.fst ++ lost s i))
  written : ∀ s i, lines (M.step s i).2 = (closed s i).map Prod.snd

namespace Custody

variable {σ ι ο α γ : Type*} {M : EventMachine σ ι ο} (C : Custody M α γ) {s : σ} {is : List ι}

/-- Every element given is held or closed, the lines written are those of the elements closed,
and each was closed by a step of the run. -/
def KeepsAll (s : σ) (is : List ι) : Prop :=
  ∃ cs : List (α × γ),
    (is.flatMap C.given).Perm (C.held (M.run s is).1 ++ cs.map Prod.fst) ∧
      C.lines (M.run s is).2 = cs.map Prod.snd ∧
        ∀ c ∈ cs, ∃ pre i post, is = pre ++ i :: post ∧ c ∈ C.closed (M.run s pre).1 i

/-- Elements are conserved over a run. -/
theorem run_perm (h0 : C.held s = []) (is : List ι) :
    (is.flatMap C.given).Perm (C.held (M.run s is).1 ++
      ((M.readings C.closed s is).map Prod.fst ++ M.readings C.lost s is)) := by
  classical
  induction is using List.reverseRecOn with
  | nil => simp [h0, EventMachine.readings]
  | append_singleton is i ih =>
    refine List.perm_iff_count.mpr fun a => ?_
    have hrun := List.perm_iff_count.mp ih a
    have hstep := List.perm_iff_count.mp (C.step (M.run s is).1 i) a
    rw [EventMachine.run_snoc_fst, EventMachine.readings_snoc, EventMachine.readings_snoc,
      List.flatMap_append, List.flatMap_singleton, List.map_append]
    simp only [List.count_append] at hrun hstep ⊢
    omega

theorem run_lines (s : σ) (is : List ι) :
    C.lines (M.run s is).2 = (M.readings C.closed s is).map Prod.snd := by
  induction is using List.reverseRecOn with
  | nil => exact C.lines_nil
  | append_singleton is i ih =>
    rw [EventMachine.run_snoc_snd, C.lines_append, ih, C.written, EventMachine.readings_snoc,
      List.map_append]

/-- Where what is given is held or has its line, no step has lost anything. -/
theorem along_of_perm (h0 : C.held s = []) {cs : List (α × γ)}
    (hperm : (is.flatMap C.given).Perm (C.held (M.run s is).1 ++ cs.map Prod.fst))
    (hlines : C.lines (M.run s is).2 = cs.map Prod.snd) :
    M.Along (fun t i => C.lost t i = []) s is := by
  have hlen : cs.length = (M.readings C.closed s is).length := by
    rw [← List.length_map (f := Prod.snd), ← hlines, C.run_lines, List.length_map]
  have hcount := (C.run_perm h0 is).length_eq.symm.trans hperm.length_eq
  simp only [List.length_append, List.length_map] at hcount
  rw [← M.readings_eq_nil_iff]
  exact List.length_eq_zero_iff.mp (by omega)

/-- A run keeps all it is given iff none of its steps loses anything. -/
theorem keepsAll_iff (h0 : C.held s = []) :
    C.KeepsAll s is ↔ M.Along (fun t i => C.lost t i = []) s is := by
  refine ⟨fun ⟨_, hperm, hlines, _⟩ => C.along_of_perm h0 hperm hlines, fun h => ?_⟩
  have hperm := C.run_perm h0 is
  rw [(M.readings_eq_nil_iff C.lost s is).mpr h, List.append_nil] at hperm
  exact ⟨_, hperm, C.run_lines s is, fun c hc => M.exists_split_of_mem_readings hc⟩

/-- The same at every boundary of the run. -/
theorem throughout_keepsAll_iff (h0 : C.held s = []) :
    Throughout (C.KeepsAll s) is ↔ M.Along (fun t i => C.lost t i = []) s is := by
  refine ⟨fun h => (C.keepsAll_iff h0).mp h.last, fun h pre hpre => ?_⟩
  obtain ⟨post, rfl⟩ := hpre
  exact (C.keepsAll_iff h0).mpr h.of_append

end Custody

/-! ## Answers by position -/

/-- A batch is paired with its answers up to the shorter of the two. -/
theorem map_fst_zip_eq_take {α β : Type*} (l : List α) (m : List β) :
    (l.zip m).map Prod.fst = l.take m.length := by
  induction l generalizing m with
  | nil => simp
  | cons x l ih =>
    cases m with
    | nil => rfl
    | cons y m => simp [ih]

/-- A batch taken from the front of a queue divides it into what is answered, what is left
unanswered, and the rest. -/
theorem queue_eq_answered {α β : Type*} (queue : List α) (n : ℕ) (answers : List β) :
    queue = (((queue.take n).zip answers).map Prod.fst ++ (queue.take n).drop answers.length) ++
      queue.drop n := by
  rw [map_fst_zip_eq_take, List.take_append_drop, List.take_append_drop]
