import Mathlib.Data.List.Nodup

/-!
# Keys that are bound once

Keys come from a supply without repetition, and each is bound to a value when it is
drawn. However the bindings are passed around, two bindings of one key agree.
-/

structure BoundOnce {κ ν : Type*} (supply : List κ) (bindings : List (κ × ν)) : Prop where
  nodup : supply.Nodup
  unused : ∀ b ∈ bindings, b.1 ∉ supply
  agree : ∀ b ∈ bindings, ∀ c ∈ bindings, b.1 = c.1 → b.2 = c.2

namespace BoundOnce

variable {κ ν : Type*} {supply : List κ} {bindings bindings' : List (κ × ν)}

theorem start (h : supply.Nodup) : BoundOnce supply ([] : List (κ × ν)) :=
  ⟨h, by simp, by simp⟩

/-- Bindings may be copied, moved and lost. -/
theorem mono (h : BoundOnce supply bindings) (hsub : ∀ b ∈ bindings', b ∈ bindings) :
    BoundOnce supply bindings' where
  nodup := h.nodup
  unused b hb := h.unused b (hsub b hb)
  agree b hb c hc := h.agree b (hsub b hb) c (hsub c hc)

theorem draw {key : κ} (h : BoundOnce (key :: supply) bindings) (value : ν) :
    BoundOnce supply ((key, value) :: bindings) := by
  obtain ⟨hkey, hsupply⟩ := List.nodup_cons.mp h.nodup
  refine ⟨hsupply, fun b hb => ?_, fun b hb c hc heq => ?_⟩
  · rcases List.mem_cons.mp hb with rfl | hold
    · exact hkey
    · exact fun hmem => h.unused b hold (List.mem_cons_of_mem _ hmem)
  · have hfresh : ∀ b ∈ bindings, b.1 ≠ key := fun b hb hbk =>
      h.unused b hb (hbk ▸ List.mem_cons_self)
    rcases List.mem_cons.mp hb with rfl | hb' <;> rcases List.mem_cons.mp hc with rfl | hc'
    · rfl
    · exact absurd heq.symm (hfresh c hc')
    · exact absurd heq (hfresh b hb')
    · exact h.agree b hb' c hc' heq

end BoundOnce
