import Mathlib.Tactic.Tauto
import SolanaBench.Lib.Splits

/-!
# Guards that answer a request once

A component answers the first request for a key and remembers that it did, so
that repetitions are not answered. When the memory of the key is dropped, the
next request is answered again. Here `R pre i` says that the input `i`, after
`pre`, requests the key, and `D pre i` that it drops the memory of it.
-/

variable {ι : Type*}

/-- No request in `is` has been forgotten since. -/
def Undropped (R D : List ι → ι → Prop) (is : List ι) : Prop :=
  EverySplit (fun pre i => D pre i → ¬SomeSplit R pre) is

/-- No request comes after a drop that forgot an earlier one. -/
def NeverRepeated (R D : List ι → ι → Prop) (is : List ι) : Prop :=
  EverySplit (fun pre i => R pre i → Undropped R D pre) is

/-- What holds after `is` of a guard that is `remembered` or not and has
answered `answered` times. -/
structure OnceGuard (R D : List ι → ι → Prop) (is : List ι) (remembered : Prop)
    (answered : ℕ) : Prop where
  remembered_iff : NeverRepeated R D is → (remembered ↔ SomeSplit R is ∧ Undropped R D is)
  once : NeverRepeated R D is → SomeSplit R is → answered = 1
  unasked : ¬SomeSplit R is → answered = 0
  again : ¬NeverRepeated R D is → 2 ≤ answered

namespace OnceGuard

variable {R D : List ι → ι → Prop} {is : List ι} {i : ι} {remembered remembered' : Prop}
  {answered answered' : ℕ}

theorem undropped_of_unasked (h : ¬SomeSplit R is) : Undropped R D is := by
  intro pre i post his hd hr
  obtain ⟨pre', j, post', hpre, hj⟩ := hr
  exact h ⟨pre', j, post' ++ i :: post, by simp [his, hpre], hj⟩

theorem init (h : ¬remembered) : OnceGuard R D [] remembered 0 where
  remembered_iff _ := by simp [h, SomeSplit.not_nil]
  once _ hr := absurd hr SomeSplit.not_nil
  unasked _ := rfl
  again hn := absurd EverySplit.nil hn

/-- A request is answered iff it is not remembered, and is remembered from then on. -/
theorem request (h : OnceGuard R D is remembered answered) (hr : R is i) (hd : ¬D is i)
    (hset : remembered') (hkeep : remembered → answered' = answered)
    (hnew : ¬remembered → answered' = answered + 1) :
    OnceGuard R D (is ++ [i]) remembered' answered' := by
  have hsome : SomeSplit R (is ++ [i]) := SomeSplit.snoc_iff.mpr (Or.inr hr)
  have hnr : NeverRepeated R D (is ++ [i]) ↔ NeverRepeated R D is ∧ Undropped R D is := by
    unfold NeverRepeated
    rw [EverySplit.snoc_iff]
    simp [hr]
  have hud : Undropped R D (is ++ [i]) ↔ Undropped R D is := by
    unfold Undropped
    rw [EverySplit.snoc_iff]
    simp [hd]
  refine ⟨fun hn => ?_, fun hn _ => ?_, fun hno => absurd hsome hno, fun hn => ?_⟩
  · simp [hset, hsome, hud, (hnr.mp hn).2]
  · obtain ⟨hn, hu⟩ := hnr.mp hn
    by_cases hasked : SomeSplit R is
    · rw [hkeep ((h.remembered_iff hn).mpr ⟨hasked, hu⟩), h.once hn hasked]
    · have hnot : ¬remembered := fun hrem => hasked ((h.remembered_iff hn).mp hrem).1
      rw [hnew hnot, h.unasked hasked]
  · by_cases hn' : NeverRepeated R D is
    · -- the earlier answer was forgotten
      have hu : ¬Undropped R D is := fun hu => hn (hnr.mpr ⟨hn', hu⟩)
      have hasked : SomeSplit R is := by
        by_contra hno
        exact hu (undropped_of_unasked hno)
      have hnot : ¬remembered := fun hrem => hu ((h.remembered_iff hn').mp hrem).2
      have hone := h.once hn' hasked
      have hmore := hnew hnot
      omega
    · have hold := h.again hn'
      by_cases hrem : remembered
      · rw [hkeep hrem]
        exact hold
      · rw [hnew hrem]
        omega

theorem neverRepeated_snoc_of_not (hr : ¬R is i) :
    NeverRepeated R D (is ++ [i]) ↔ NeverRepeated R D is := by
  unfold NeverRepeated
  rw [EverySplit.snoc_iff]
  simp [hr]

theorem someSplit_snoc_of_not (hr : ¬R is i) : SomeSplit R (is ++ [i]) ↔ SomeSplit R is := by
  rw [SomeSplit.snoc_iff]
  simp [hr]

/-- A drop forgets. -/
theorem drop (h : OnceGuard R D is remembered answered) (hr : ¬R is i) (hd : D is i)
    (hunset : ¬remembered') : OnceGuard R D (is ++ [i]) remembered' answered := by
  have hud : Undropped R D (is ++ [i]) → ¬SomeSplit R is := by
    intro hu
    exact (EverySplit.snoc_iff.mp hu).2 hd
  refine ⟨fun hn => ?_, fun hn hs => ?_, fun hno => ?_, fun hn => ?_⟩
  · rw [someSplit_snoc_of_not hr]
    simp only [hunset, false_iff, not_and]
    exact fun hs hu => hud hu hs
  · exact h.once ((neverRepeated_snoc_of_not hr).mp hn) ((someSplit_snoc_of_not hr).mp hs)
  · exact h.unasked fun hs => hno ((someSplit_snoc_of_not hr).mpr hs)
  · exact h.again fun hn' => hn ((neverRepeated_snoc_of_not hr).mpr hn')

/-- Every other input leaves the guard alone. -/
theorem other (h : OnceGuard R D is remembered answered) (hr : ¬R is i) (hd : ¬D is i)
    (hsame : remembered' ↔ remembered) : OnceGuard R D (is ++ [i]) remembered' answered := by
  have hud : Undropped R D (is ++ [i]) ↔ Undropped R D is := by
    unfold Undropped
    rw [EverySplit.snoc_iff]
    simp [hd]
  refine ⟨fun hn => ?_, fun hn hs => ?_, fun hno => ?_, fun hn => ?_⟩
  · rw [someSplit_snoc_of_not hr, hud, hsame]
    exact h.remembered_iff ((neverRepeated_snoc_of_not hr).mp hn)
  · exact h.once ((neverRepeated_snoc_of_not hr).mp hn) ((someSplit_snoc_of_not hr).mp hs)
  · exact h.unasked fun hs => hno ((someSplit_snoc_of_not hr).mpr hs)
  · exact h.again fun hn' => hn ((neverRepeated_snoc_of_not hr).mpr hn')

/-- A key that was asked for is answered exactly once iff no request repeats a forgotten one. -/
theorem answered_eq_one_iff (h : OnceGuard R D is remembered answered) (hs : SomeSplit R is) :
    answered = 1 ↔ NeverRepeated R D is := by
  constructor
  · intro hone
    by_contra hn
    have htwo := h.again hn
    omega
  · exact fun hn => h.once hn hs

theorem answered_le_one (h : OnceGuard R D is remembered answered) (hn : NeverRepeated R D is) :
    answered ≤ 1 := by
  by_cases hs : SomeSplit R is
  · exact Nat.le_of_eq (h.once hn hs)
  · rw [h.unasked hs]
    exact Nat.zero_le 1

end OnceGuard
