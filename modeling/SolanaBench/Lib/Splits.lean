import Mathlib.Data.List.Induction
import Mathlib.Data.List.Pairwise

/-!
# Elements of a list together with what precedes them

`EverySplit R l` says that `R` relates every element of `l` to the part of the
list before it: the form of a law about a log in which each event is judged by
the events that came earlier.
-/

def EverySplit {α : Type*} (R : List α → α → Prop) (l : List α) : Prop :=
  ∀ pre x post, l = pre ++ x :: post → R pre x

namespace EverySplit

variable {α : Type*} {R : List α → α → Prop} {l : List α}

theorem nil : EverySplit R [] := by
  intro pre x post h
  simp at h

theorem snoc_iff {x : α} : EverySplit R (l ++ [x]) ↔ EverySplit R l ∧ R l x := by
  constructor
  · intro h
    exact ⟨fun pre y post hy => h pre y (post ++ [x]) (by simp [hy]), h l x [] rfl⟩
  · rintro ⟨h, hx⟩ pre y post hy
    rcases List.eq_nil_or_concat post with rfl | ⟨post, z, rfl⟩
    · have heq : l = pre ∧ x = y := by simpa using hy
      rw [← heq.1, ← heq.2]
      exact hx
    · have heq : (l = pre ++ y :: post) ∧ [x] = [z] :=
        List.append_inj' (by simpa using hy) rfl
      exact h pre y post heq.1

theorem snoc (h : EverySplit R l) {x : α} (hx : R l x) : EverySplit R (l ++ [x]) :=
  snoc_iff.mpr ⟨h, hx⟩

/-- A law on a list holds on its prefixes. -/
theorem of_append {m : List α} (h : EverySplit R (l ++ m)) : EverySplit R l :=
  fun pre x post hx => h pre x (post ++ m) (by simp [hx])

theorem iff_forall_take : EverySplit R l ↔ ∀ i : Fin l.length, R (l.take i) (l.get i) := by
  constructor
  · intro h i
    refine h _ _ (l.drop (i + 1)) ?_
    simp
  · intro h pre x post hx
    subst hx
    have hi := h ⟨pre.length, by simp⟩
    simpa using hi

/-- A property of prefixes that one more element keeps exactly under `R` holds of all
prefixes exactly when `R` holds at every element. -/
theorem iff_forall_prefix {P : List α → Prop} (h0 : P [])
    (hstep : EverySplit (fun pre x => P pre → (P (pre ++ [x]) ↔ R pre x)) l) :
    EverySplit R l ↔ ∀ pre, pre <+: l → P pre := by
  induction l using List.reverseRecOn with
  | nil =>
    refine ⟨fun _ pre hpre => ?_, fun _ => nil⟩
    rw [List.prefix_nil.mp hpre]
    exact h0
  | append_singleton l x ih =>
    obtain ⟨hl, hx⟩ := snoc_iff.mp hstep
    rw [snoc_iff, ih hl]
    constructor
    · rintro ⟨hpre, hR⟩ pre hp
      rcases List.prefix_concat_iff.mp hp with rfl | hp
      · exact (hx (hpre l (List.prefix_refl l))).mpr hR
      · exact hpre pre hp
    · intro hpre
      have hl : P l := hpre l (List.prefix_append l [x])
      exact ⟨fun pre hp => hpre pre (hp.trans (List.prefix_append l [x])),
        (hx hl).mp (hpre _ (List.prefix_refl _))⟩

instance decidable [∀ pre x, Decidable (R pre x)] : Decidable (EverySplit R l) :=
  decidable_of_iff _ iff_forall_take.symm

end EverySplit

/-- Some element of `l` is related to the part before it. -/
def SomeSplit {α : Type*} (R : List α → α → Prop) (l : List α) : Prop :=
  ∃ pre x post, l = pre ++ x :: post ∧ R pre x

namespace SomeSplit

variable {α : Type*} {R : List α → α → Prop} {l : List α}

theorem not_iff : ¬SomeSplit R l ↔ EverySplit (fun pre x => ¬R pre x) l := by
  simp only [SomeSplit, EverySplit, not_exists, not_and]

theorem not_nil : ¬SomeSplit R [] := not_iff.mpr EverySplit.nil

theorem snoc_iff {x : α} : SomeSplit R (l ++ [x]) ↔ SomeSplit R l ∨ R l x := by
  rw [← not_iff_not, not_or, not_iff, EverySplit.snoc_iff, not_iff]

theorem snoc (h : SomeSplit R l) (x : α) : SomeSplit R (l ++ [x]) := snoc_iff.mpr (Or.inl h)

/-- There is a first such element. -/
theorem first (h : SomeSplit R l) : ∃ pre x post, l = pre ++ x :: post ∧ R pre x ∧
    EverySplit (fun pre x => ¬R pre x) pre := by
  induction l using List.reverseRecOn with
  | nil => exact absurd h not_nil
  | append_singleton l y ih =>
    by_cases hl : SomeSplit R l
    · obtain ⟨pre, x, post, rfl, hx, hpre⟩ := ih hl
      exact ⟨pre, x, post ++ [y], by simp, hx, hpre⟩
    · exact ⟨l, y, [], rfl, (snoc_iff.mp h).resolve_left hl, not_iff.mp hl⟩

instance decidable [∀ pre x, Decidable (R pre x)] : Decidable (SomeSplit R l) :=
  decidable_of_iff (¬EverySplit (fun pre x => ¬R pre x) l) (by rw [← not_iff, not_not])

end SomeSplit

/-- The element of a kind that has `j` of the kind before it. -/
theorem exists_split_countP {α : Type*} {p : α → Bool} {l : List α} {j : ℕ} (h : j < l.countP p) :
    ∃ pre x post, l = pre ++ x :: post ∧ p x = true ∧ pre.countP p = j := by
  induction l using List.reverseRecOn with
  | nil => cases h
  | append_singleton l x ih =>
    by_cases hl : j < l.countP p
    · obtain ⟨pre, y, post, rfl, hy, hj⟩ := ih hl
      exact ⟨pre, y, post ++ [x], by simp, hy, hj⟩
    · rw [List.countP_append, List.countP_singleton] at h
      split at h
      · exact ⟨l, x, [], rfl, ‹_›, by omega⟩
      · omega

/-- Two elements of a list stand at one place, or one stands before the other. -/
theorem splits_compare {α : Type*} {pre post pre' post' : List α} {x y : α}
    (h : pre ++ x :: post = pre' ++ y :: post') :
    (pre = pre' ∧ x = y ∧ post = post') ∨
      (∃ mid, pre' = pre ++ x :: mid ∧ post = mid ++ y :: post') ∨
        ∃ mid, pre = pre' ++ y :: mid ∧ post' = mid ++ x :: post := by
  rcases List.append_eq_append_iff.mp h with ⟨mid, hpre, hpost⟩ | ⟨mid, hpre, hpost⟩
  · cases mid with
    | nil =>
      obtain ⟨rfl, rfl⟩ := List.cons.inj hpost
      exact Or.inl ⟨by simp [hpre], rfl, rfl⟩
    | cons z mid =>
      obtain ⟨rfl, rfl⟩ := List.cons.inj hpost
      exact Or.inr (Or.inl ⟨mid, hpre, rfl⟩)
  · cases mid with
    | nil =>
      obtain ⟨rfl, rfl⟩ := List.cons.inj hpost
      exact Or.inl ⟨by simp [hpre], rfl, rfl⟩
    | cons z mid =>
      obtain ⟨rfl, rfl⟩ := List.cons.inj hpost
      exact Or.inr (Or.inr ⟨mid, hpre, rfl⟩)

/-- Dropping a leading run drops all that meet `p` exactly if none of them comes after one that
does not. -/
theorem dropWhile_eq_filter_iff {α : Type*} {p : α → Bool} {l : List α} :
    l.dropWhile p = l.filter (fun x => !p x) ↔ l.Pairwise fun x y => p y → p x := by
  induction l with
  | nil => simp
  | cons x l ih =>
    rw [List.pairwise_cons]
    cases hx : p x with
    | true => simpa [hx] using ih
    | false =>
      rw [List.dropWhile_cons_of_neg (by simp [hx]), List.filter_cons_of_pos (by simp [hx]),
        List.cons.injEq, eq_self_iff_true, true_and, eq_comm, List.filter_eq_self]
      constructor
      · intro hall
        have hnot : ∀ y ∈ l, p y → False := fun y hy hpy =>
          absurd hpy (by simpa using hall y hy)
        exact ⟨fun y hy hpy => (hnot y hy hpy).elim,
          List.pairwise_of_forall_mem_list fun _ _ y hy hpy => (hnot y hy hpy).elim⟩
      · rintro ⟨hall, -⟩ y hy
        cases hy' : p y
        · rfl
        · exact absurd (hall y hy hy') (by simp)

/-- `P` holds of every prefix of `l`. -/
def Throughout {α : Type*} (P : List α → Prop) (l : List α) : Prop := ∀ pre, pre <+: l → P pre

namespace Throughout

variable {α : Type*} {P : List α → Prop} {l : List α}

theorem nil_iff : Throughout P [] ↔ P [] := by
  simp [Throughout, List.prefix_nil]

theorem snoc_iff {x : α} : Throughout P (l ++ [x]) ↔ Throughout P l ∧ P (l ++ [x]) := by
  unfold Throughout
  simp only [List.prefix_concat_iff, forall_eq_or_imp, and_comm]

theorem last (h : Throughout P l) : P l := h l (List.prefix_refl l)

end Throughout

/-- What one step of a fold brings about, and every step keeps, holds in the end. -/
theorem List.foldl_of_mem {α σ : Type*} {P : σ → Prop} {f : σ → α → σ} {x : α} {l : List α}
    (hx : x ∈ l) (hstep : ∀ s, P (f s x)) (hkeep : ∀ s a, P s → P (f s a)) (s : σ) :
    P (l.foldl f s) := by
  obtain ⟨pre, post, rfl⟩ := List.append_of_mem hx
  rw [List.foldl_append, List.foldl_cons]
  exact List.foldlRecOn post f (hstep _) fun s hs a _ => hkeep s a hs
