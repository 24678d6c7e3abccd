import Mathlib.Data.List.Basic
import Mathlib.Logic.Relation

/-!
# While loops that emit outputs

A loop is a body that either leaves (`none`) or yields a next state with some
outputs. It carries a measure that every iteration lowers, so `exec` is a total
function and `exec_exits` says that it stops where the source loop stops, never
by running out of iterations.
-/

structure WhileLoop (σ ε : Type*) where
  body : σ → Option (σ × List ε)
  measure : σ → ℕ
  decreases : ∀ {s t es}, body s = some (t, es) → measure t < measure s

namespace WhileLoop

variable {σ ε : Type*}

/-- At most `n` iterations of a body. -/
def iterate (body : σ → Option (σ × List ε)) : ℕ → σ → σ × List ε
  | 0, s => (s, [])
  | n + 1, s =>
    match body s with
    | none => (s, [])
    | some (t, es) =>
      let r := iterate body n t
      (r.1, es ++ r.2)

variable (L : WhileLoop σ ε)

def exec (s : σ) : σ × List ε := iterate L.body (L.measure s) s

theorem iterate_of_none {body : σ → Option (σ × List ε)} {s : σ} (h : body s = none) (n : ℕ) :
    iterate body n s = (s, []) := by
  cases n <;> simp [iterate, h]

/-- Iterations beyond the measure change nothing. -/
theorem iterate_eq_exec (s : σ) (n : ℕ) (hn : L.measure s ≤ n) :
    iterate L.body n s = L.exec s := by
  induction n using Nat.strongRecOn generalizing s with
  | ind n ih =>
    unfold exec
    cases hb : L.body s with
    | none => rw [iterate_of_none hb, iterate_of_none hb]
    | some p =>
      obtain ⟨t, es⟩ := p
      have hlt := L.decreases hb
      obtain ⟨m, hm⟩ : ∃ m, L.measure s = m + 1 := ⟨L.measure s - 1, by omega⟩
      obtain ⟨k, rfl⟩ : ∃ k, n = k + 1 := ⟨n - 1, by omega⟩
      have hk : iterate L.body k t = L.exec t := ih k (by omega) t (by omega)
      have hm' : iterate L.body m t = L.exec t := by
        rcases Nat.lt_or_ge m (k + 1) with h | h
        · exact ih m h t (by omega)
        · omega
      simp [hm, iterate, hb, hk, hm']

theorem exec_of_none {s : σ} (h : L.body s = none) : L.exec s = (s, []) :=
  iterate_of_none h _

theorem exec_of_some {s t : σ} {es : List ε} (h : L.body s = some (t, es)) :
    L.exec s = ((L.exec t).1, es ++ (L.exec t).2) := by
  have hlt := L.decreases h
  obtain ⟨m, hm⟩ : ∃ m, L.measure s = m + 1 := ⟨L.measure s - 1, by omega⟩
  have ht : iterate L.body m t = L.exec t := L.iterate_eq_exec t m (by omega)
  have hs : L.exec s = iterate L.body (m + 1) s := by rw [exec, hm]
  simp [hs, iterate, h, ht]

/-- Induction along the iterations of a loop. -/
theorem exec_induction {P : σ → Prop} (s : σ)
    (hstop : ∀ s, L.body s = none → P s)
    (hnext : ∀ s t es, L.body s = some (t, es) → P t → P s) : P s := by
  induction hm : L.measure s using Nat.strongRecOn generalizing s with
  | ind m ih =>
    cases hb : L.body s with
    | none => exact hstop s hb
    | some p =>
      obtain ⟨t, es⟩ := p
      have hlt := L.decreases hb
      exact hnext s t es hb (ih _ (by omega) t rfl)

/-- The loop is left at a state in which its body asks to leave. -/
theorem exec_exits (s : σ) : L.body (L.exec s).1 = none := by
  refine L.exec_induction (P := fun s => L.body (L.exec s).1 = none) s ?_ ?_
  · intro s h
    rw [L.exec_of_none h]
    exact h
  · intro s t es h ih
    rw [L.exec_of_some h]
    exact ih

theorem exec_rule_append (J : σ → List ε → Prop) {s : σ} {os : List ε} (h0 : J s os)
    (hstep : ∀ t os u es, J t os → L.body t = some (u, es) → J u (os ++ es)) :
    J (L.exec s).1 (os ++ (L.exec s).2) := by
  refine L.exec_induction (P := fun s => ∀ os, J s os → J (L.exec s).1 (os ++ (L.exec s).2))
    s ?_ ?_ os h0
  · intro s h os hJ
    rw [L.exec_of_none h]
    simpa using hJ
  · intro s t es h ih os hJ
    rw [L.exec_of_some h]
    simpa [List.append_assoc] using ih (os ++ es) (hstep s os t es hJ h)

/-- The loop rule: what every iteration keeps, with the outputs so far, holds at the exit. -/
theorem exec_rule (J : σ → List ε → Prop) {s : σ} (h0 : J s [])
    (hstep : ∀ t os u es, J t os → L.body t = some (u, es) → J u (os ++ es)) :
    J (L.exec s).1 (L.exec s).2 :=
  L.exec_rule_append J h0 hstep

/-- `t` is a loop head of the run from `s`. -/
def Visits : σ → σ → Prop := Relation.ReflTransGen fun s t => ∃ es, L.body s = some (t, es)

/-- What every iteration keeps holds at every loop head. -/
theorem visits_rule (I : σ → Prop) {s t : σ} (h0 : I s)
    (hstep : ∀ t u es, I t → L.body t = some (u, es) → I u) (h : L.Visits s t) : I t := by
  induction h with
  | refl => exact h0
  | tail _ hb ih =>
    obtain ⟨es, hb⟩ := hb
    exact hstep _ _ es ih hb

/-- The loop comes to a head at which it is left, and that is where `exec` ends. -/
theorem visits_exec (s : σ) : L.Visits s (L.exec s).1 := by
  refine L.exec_induction (P := fun s => L.Visits s (L.exec s).1) s ?_ ?_
  · intro s h
    rw [L.exec_of_none h]
    exact Relation.ReflTransGen.refl
  · intro s t es h ih
    rw [L.exec_of_some h]
    exact Relation.ReflTransGen.head ⟨es, h⟩ ih

end WhileLoop
