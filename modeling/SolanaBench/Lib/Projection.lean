import SolanaBench.Lib.EventMachine

/-!
# A machine seen through one of its parts

A store of many independent entries behaves at one key as a machine of its own: it
reads the inputs that concern the key, and writes what the store writes about it.
`Shows` says so of one step, and `Shows.run` of a run.
-/

namespace EventMachine

variable {σ τ ι κ ο ρ π : Type*}

/-- Up to `R`, `M` is `N` on the inputs that `f` keeps and the outputs that `out` keeps. -/
structure Shows (M : EventMachine σ ι ο) (N : EventMachine τ κ ρ) (R : σ → τ → Prop)
    (f : ι → Option κ) (out : ο → Option π) (g : ρ → π) : Prop where
  skip : ∀ s t i, f i = none → R s t →
    R (M.step s i).1 t ∧ (M.step s i).2.filterMap out = []
  serve : ∀ s t i k, f i = some k → R s t →
    R (M.step s i).1 (N.step t k).1 ∧ (M.step s i).2.filterMap out = (N.step t k).2.map g

theorem Shows.run {M : EventMachine σ ι ο} {N : EventMachine τ κ ρ} {R : σ → τ → Prop}
    {f : ι → Option κ} {out : ο → Option π} {g : ρ → π} (h : M.Shows N R f out g) {s : σ} {t : τ}
    (hR : R s t) (is : List ι) : R (M.run s is).1 (N.run t (is.filterMap f)).1 ∧
      (M.run s is).2.filterMap out = (N.run t (is.filterMap f)).2.map g := by
  induction is generalizing s t with
  | nil => exact ⟨hR, rfl⟩
  | cons i is ih =>
    cases hi : f i with
    | none =>
      obtain ⟨hnext, hout⟩ := h.skip s t i hi hR
      obtain ⟨hend, hrest⟩ := ih hnext
      rw [List.filterMap_cons_none hi]
      refine ⟨hend, ?_⟩
      rw [run_cons_snd, List.filterMap_append, hout, hrest, List.nil_append]
    | some k =>
      obtain ⟨hnext, hout⟩ := h.serve s t i k hi hR
      obtain ⟨hend, hrest⟩ := ih hnext
      rw [List.filterMap_cons_some hi]
      refine ⟨hend, ?_⟩
      rw [run_cons_snd, run_cons_snd, List.filterMap_append, List.map_append, hout, hrest]

/-- Machines that answer an input of `C` alike, and stay in relation, answer a run alike. -/
theorem run_lockstep {M : EventMachine σ ι ο} {N : EventMachine τ ι ο} {R : σ → τ → Prop}
    {C : ι → Prop} (hstep : ∀ s t i, C i → R s t →
      R (M.step s i).1 (N.step t i).1 ∧ (M.step s i).2 = (N.step t i).2)
    {s : σ} {t : τ} (hR : R s t) {is : List ι} (his : ∀ i ∈ is, C i) :
    R (M.run s is).1 (N.run t is).1 ∧ (M.run s is).2 = (N.run t is).2 := by
  induction is generalizing s t with
  | nil => exact ⟨hR, rfl⟩
  | cons i is ih =>
    obtain ⟨hi, hrest⟩ := List.forall_mem_cons.mp his
    obtain ⟨hnext, hout⟩ := hstep s t i hi hR
    obtain ⟨hend, houts⟩ := ih hnext hrest
    refine ⟨hend, ?_⟩
    rw [run_cons_snd, run_cons_snd, hout, houts]

end EventMachine
