import Mathlib.Data.List.Induction
import Mathlib.Data.List.Infix
import Mathlib.Data.Nat.Notation

/-!
# A counter of successes in a row

The counter of a word that is read from left to right, with the verdicts of things that finish
out of order: where no verdict changes places with another one, the counter reads the word in
the order of the things.
-/

/-- How many `true` there are at the end. -/
def streak (w : List Bool) : ℕ := w.foldl (fun n v => if v then n + 1 else 0) 0

@[simp] theorem streak_nil : streak [] = 0 := rfl

theorem streak_snoc (w : List Bool) (v : Bool) :
    streak (w ++ [v]) = if v then streak w + 1 else 0 := by
  simp [streak]

theorem le_streak_iff {m : ℕ} {w : List Bool} :
    m ≤ streak w ↔ List.replicate m true <:+ w := by
  induction w using List.reverseRecOn generalizing m with
  | nil => simp [List.suffix_nil]
  | append_singleton w v ih =>
    rw [streak_snoc, List.suffix_concat_iff]
    cases m with
    | zero => simp
    | succ m =>
      cases v with
      | false => simp [List.replicate_succ']
      | true =>
        rw [if_pos rfl, Nat.succ_le_succ_iff, ih]
        simp [List.replicate_succ']

/-- The counter reaches `m` iff there are `m` in a row. -/
theorem exists_streak_iff {m : ℕ} {w : List Bool} :
    (∃ p, p <+: w ∧ m ≤ streak p) ↔ List.replicate m true <:+: w := by
  rw [List.infix_iff_suffix_prefix]
  simp only [le_streak_iff, and_comm]

section

variable {α : Type*} {c v : α → Bool} {l as bs : List α} {a : α} {m : ℕ}

/-- What is left out is `true`. -/
theorem streak_filter_le (h : ∀ x ∈ l, c x = false → v x = true) :
    streak ((l.filter c).map v) ≤ streak (l.map v) := by
  induction l using List.reverseRecOn with
  | nil => exact Nat.le_refl 0
  | append_singleton l x ih =>
    have hl := ih fun y hy => h y (List.mem_append_left _ hy)
    rw [List.filter_append, List.map_append, List.map_append, List.map_singleton, streak_snoc]
    cases hc : c x with
    | false =>
      rw [h x (by simp) hc, if_pos rfl]
      simpa [hc] using hl.trans (Nat.le_succ _)
    | true =>
      have hsnoc : ([x].filter c).map v = [v x] := by simp [hc]
      rw [hsnoc, streak_snoc]
      split
      · omega
      · exact Nat.le_refl 0

/-- What is left out has the verdict of each later one that is kept. -/
theorem exists_streak_of_filter (hpairs : l.Pairwise fun x y => c x = false → c y = true → v x = v y)
    (hm : 0 < m) (h : m ≤ streak ((l.filter c).map v)) : ∃ p, p <+: l.map v ∧ m ≤ streak p := by
  induction l using List.reverseRecOn with
  | nil => exact absurd h (Nat.not_le.mpr hm)
  | append_singleton l x ih =>
    obtain ⟨hl, -, hlast⟩ := List.pairwise_append.mp hpairs
    cases hc : c x with
    | false =>
      have hsame : ((l ++ [x]).filter c).map v = (l.filter c).map v := by simp [hc]
      rw [hsame] at h
      obtain ⟨p, hp, hle⟩ := ih hl h
      refine ⟨p, ?_, hle⟩
      rw [List.map_append]
      exact hp.trans (List.prefix_append _ _)
    | true =>
      refine ⟨_, List.prefix_refl _, h.trans ?_⟩
      have hsnoc : ((l ++ [x]).filter c).map v = (l.filter c).map v ++ [v x] := by simp [hc]
      rw [hsnoc, List.map_append, List.map_singleton, streak_snoc, streak_snoc]
      cases hv : v x with
      | false => exact Nat.le_refl _
      | true =>
        rw [if_pos rfl, if_pos rfl]
        refine Nat.succ_le_succ (streak_filter_le fun y hy hcy => ?_)
        exact (hlast y hy x (by simp) hcy hc).trans hv

/-- One more finishes, with the verdict of all later ones that finished: it comes last. -/
theorem map_filter_insert (c' : α → Bool) (hold : c a = false) (hnew : c' a = true)
    (hbefore : ∀ x ∈ as, c' x = c x) (hafter : ∀ x ∈ bs, c' x = c x)
    (hsame : ∀ x ∈ bs, c x = true → v x = v a) :
    ((as ++ a :: bs).filter c').map v = ((as ++ a :: bs).filter c).map v ++ [v a] := by
  have hrest : (bs.filter c).map v = List.replicate (bs.filter c).length (v a) := by
    refine List.eq_replicate_iff.mpr ⟨by simp, fun w hw => ?_⟩
    obtain ⟨x, hx, rfl⟩ := List.mem_map.mp hw
    obtain ⟨hx, hc⟩ := List.mem_filter.mp hx
    exact hsame x hx hc
  rw [List.filter_append, List.filter_append, List.filter_cons_of_pos hnew,
    List.filter_cons_of_neg (by simp [hold]), List.filter_congr hbefore, List.filter_congr hafter,
    List.map_append, List.map_append, List.map_cons, hrest, List.append_assoc]
  rw [← List.replicate_succ', List.replicate_succ]

end
