import SolanaBench.Lib.EventMachine

/-!
# Gathering items until a batch is full

A collector appends what it is given to its current batch, hands the batch on as soon
as it is full, and starts again from nothing. What it hands on depends only on which
stretches of the input are full.
-/

variable {α : Type*}

/-- Full at its end and not before. -/
structure Completes (full : List α → Bool) (as : List α) : Prop where
  isFull : full as
  first : ∀ p, p <+: as → full p → p = as

def gather (full : List α → Bool) : EventMachine (List α) α (List α) where
  step held a := if full (held ++ [a]) then ([], [held ++ [a]]) else (held ++ [a], [])

namespace Gather

variable {full : List α → Bool} {held as bs : List α} {a : α}

theorem step_full (h : full (held ++ [a])) : (gather full).step held a = ([], [held ++ [a]]) :=
  if_pos h

theorem step_short (h : ¬full (held ++ [a])) :
    (gather full).step held a = (held ++ [a], []) := if_neg h

/-- Short of a full prefix the collector only holds. -/
theorem run_short (h : ∀ p, p <+: as → ¬full (held ++ p)) :
    (gather full).run held as = (held ++ as, []) := by
  induction as using List.reverseRecOn with
  | nil => simp
  | append_singleton as a ih =>
    have hbefore := ih fun p hp => h p (hp.trans (List.prefix_append as [a]))
    have hlast : ¬full (held ++ as ++ [a]) := by
      rw [List.append_assoc]
      exact h _ (List.prefix_refl _)
    rw [EventMachine.run_append, hbefore, EventMachine.run_cons, step_short hlast]
    simp

/-- A stretch that completes a batch is handed on whole. -/
theorem run_completes (h : Completes full as) (hnil : as ≠ []) :
    (gather full).run [] as = ([], [as]) := by
  obtain ⟨bs, b, rfl⟩ := List.eq_nil_or_concat as |>.resolve_left hnil
  rw [List.concat_eq_append] at *
  have hbefore : (gather full).run [] bs = ([] ++ bs, []) := by
    refine run_short fun p hp hfull => ?_
    have heq := h.first p (hp.trans (List.prefix_append bs [b])) hfull
    have hlen := hp.length_le
    rw [heq, List.length_append, List.length_singleton] at hlen
    omega
  rw [EventMachine.run_append, hbefore, EventMachine.run_cons, List.nil_append]
  dsimp only
  rw [step_full h.isFull]
  rfl

/-- Either nothing is handed on, or the input begins with a batch. -/
theorem run_cases (hempty : ¬full []) (as : List α) :
    ((∀ p, p <+: as → ¬full p) ∧ (gather full).run [] as = (as, [])) ∨
    ∃ b bs, as = b ++ bs ∧ b ≠ [] ∧ Completes full b ∧
      (gather full).run [] as = (((gather full).run [] bs).1, b :: ((gather full).run [] bs).2) := by
  induction as using List.reverseRecOn with
  | nil =>
    refine Or.inl ⟨fun p hp => ?_, rfl⟩
    rw [List.prefix_nil.mp hp]
    exact hempty
  | append_singleton as a ih =>
    rcases ih with ⟨hshort, hrun⟩ | ⟨b, bs, rfl, hb, hcomplete, -⟩
    · by_cases hfull : full (as ++ [a])
      · have hcomplete : Completes full (as ++ [a]) := by
          refine ⟨hfull, fun p hp hp' => ?_⟩
          rcases List.prefix_concat_iff.mp hp with rfl | hp
          · rfl
          · exact absurd hp' (hshort p hp)
        refine Or.inr ⟨as ++ [a], [], by simp, by simp, hcomplete, ?_⟩
        rw [run_completes hcomplete (by simp)]
        rfl
      · refine Or.inl ⟨fun p hp => ?_, ?_⟩
        · rcases List.prefix_concat_iff.mp hp with rfl | hp
          · exact hfull
          · exact hshort p hp
        · rw [EventMachine.run_append, hrun, EventMachine.run_cons, step_short hfull]
          rfl
    · refine Or.inr ⟨b, bs ++ [a], by simp, hb, hcomplete, ?_⟩
      rw [List.append_assoc, EventMachine.run_append, run_completes hcomplete hb]
      rfl

/-- Something is handed on exactly if some stretch from the beginning is full. -/
theorem ne_nil_iff (hempty : ¬full []) :
    ((gather full).run [] as).2 ≠ [] ↔ ∃ p, p <+: as ∧ full p := by
  rcases run_cases hempty as with ⟨hshort, hrun⟩ | ⟨b, bs, rfl, -, hcomplete, hrun⟩
  · rw [hrun]
    exact ⟨fun h => absurd rfl h, fun ⟨p, hp, hfull⟩ => absurd hfull (hshort p hp)⟩
  · rw [hrun]
    exact ⟨fun _ => ⟨b, List.prefix_append b bs, hcomplete.isFull⟩, fun _ => List.cons_ne_nil _ _⟩

/-- At most one batch is handed on exactly if nothing is full after the first. -/
theorem length_le_one_iff (hempty : ¬full []) : ((gather full).run [] as).2.length ≤ 1 ↔
    ¬∃ b p, Completes full b ∧ full p ∧ b ++ p <+: as := by
  rcases run_cases hempty as with ⟨hshort, hrun⟩ | ⟨b, bs, rfl, hb, hcomplete, hrun⟩
  · rw [hrun]
    refine ⟨fun _ hex => ?_, fun _ => Nat.zero_le 1⟩
    obtain ⟨b, p, hb, -, hp⟩ := hex
    exact hshort b ((List.prefix_append b p).trans hp) hb.isFull
  · have hone : (b :: ((gather full).run [] bs).2).length ≤ 1 ↔
        ((gather full).run [] bs).2 = [] := by
      rw [List.length_cons, ← List.length_eq_zero_iff]
      omega
    rw [hrun, hone, ← not_iff_not, not_not, ← ne_eq, ne_nil_iff hempty]
    constructor
    · rintro ⟨p, hp, hfull⟩
      exact ⟨b, p, hcomplete, hfull, (List.prefix_append_right_inj b).mpr hp⟩
    · rintro ⟨b', p, hb', hfull, hp⟩
      -- the first batch is the only stretch from the beginning that completes
      have hsame : b' = b := by
        have hpre := (List.prefix_append b' p).trans hp
        rcases List.prefix_or_prefix_of_prefix hpre (List.prefix_append b bs) with h | h
        · exact hcomplete.first b' h hb'.isFull
        · exact (hb'.first b h hcomplete.isFull).symm
      subst hsame
      exact ⟨p, (List.prefix_append_right_inj b').mp hp, hfull⟩

/-- The first stretch that completes is handed on. -/
theorem mem_of_completes {b : List α} (hb : Completes full b) (hnil : b ≠ []) (hpre : b <+: as) :
    b ∈ ((gather full).run [] as).2 := by
  obtain ⟨bs, rfl⟩ := hpre
  rw [EventMachine.run_append, run_completes hb hnil]
  exact List.mem_cons_self

/-- A single batch is the first stretch that completes. -/
theorem prefix_of_mem (hempty : ¬full []) {b : List α} (hone : ((gather full).run [] as).2.length ≤ 1)
    (h : b ∈ ((gather full).run [] as).2) : Completes full b ∧ b <+: as := by
  rcases run_cases hempty as with ⟨-, hrun⟩ | ⟨b', bs, rfl, -, hcomplete, hrun⟩
  · rw [hrun] at h
    simp at h
  · rw [hrun] at h hone
    have hnil : ((gather full).run [] bs).2 = [] := by
      rw [← List.length_eq_zero_iff]
      simpa using hone
    rw [hnil] at h
    rw [List.mem_singleton.mp h]
    exact ⟨hcomplete, List.prefix_append b' bs⟩

end Gather
