import Mathlib.Data.List.Basic

/-!
# Traces of a labelled relation

`R s es t` says that one move leads from `s` to `t` and emits `es`. A `Trace` is
a finite sequence of moves with everything emitted on the way, in order.
-/

inductive Trace {σ ε : Type*} (R : σ → List ε → σ → Prop) (s : σ) : List ε → σ → Prop
  | refl : Trace R s [] s
  | snoc {t u : σ} {es fs : List ε} (h : Trace R s es t) (hm : R t fs u) : Trace R s (es ++ fs) u

namespace Trace

variable {σ ε : Type*} {R : σ → List ε → σ → Prop}

theorem single {s t : σ} {es : List ε} (h : R s es t) : Trace R s es t := by
  simpa using Trace.refl.snoc h

theorem trans {s t u : σ} {es fs : List ε} (h : Trace R s es t) (h' : Trace R t fs u) :
    Trace R s (es ++ fs) u := by
  induction h' with
  | refl => simpa using h
  | snoc _ hm ih =>
    rw [← List.append_assoc]
    exact ih.snoc hm

/-- The trace rule: what every move keeps, with the events so far, holds at the end. -/
theorem rule (J : σ → List ε → Prop) {s t : σ} {es : List ε} (h : Trace R s es t) (h0 : J s [])
    (hmove : ∀ t u os es, J t os → R t es u → J u (os ++ es)) : J t es := by
  induction h with
  | refl => exact h0
  | snoc _ hm ih => exact hmove _ _ _ _ ih hm

end Trace
