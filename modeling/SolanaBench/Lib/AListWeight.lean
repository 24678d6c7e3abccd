import Mathlib.Algebra.BigOperators.Group.List.Basic
import Mathlib.Algebra.GroupWithZero.Nat
import Mathlib.Algebra.Order.Group.Nat
import Mathlib.Data.List.AList

/-!
# Weights of association lists

`weight w m` adds up a number carried by every entry of a hash map. An insertion
adds the weight of the new entry and takes away that of the one it replaces, and
a removal only takes away, so balances between a map and a counter are kept by
linear arithmetic.
-/

namespace AList

variable {α β : Type*}

def weight (w : α → β → ℕ) (m : AList fun _ : α => β) : ℕ :=
  (m.entries.map fun e => w e.1 e.2).sum

@[simp] theorem weight_empty (w : α → β → ℕ) : weight w (∅ : AList fun _ : α => β) = 0 := rfl

theorem weight_eq_zero (w : α → β → ℕ) {m : AList fun _ : α => β} (h : ∀ k, k ∉ m) :
    weight w m = 0 := by
  have hnil : m.entries = [] := List.eq_nil_iff_forall_not_mem.mpr fun e he =>
    h e.1 (AList.mem_keys.mpr (List.mem_map_of_mem he))
  rw [weight, hnil]
  rfl

variable [DecidableEq α]

/-- The entries of one key are counted. -/
theorem weight_ite_eq_count [BEq α] [LawfulBEq α] (k : α) (m : AList fun _ : α => β) :
    weight (fun key _ => if key = k then 1 else 0) m = m.keys.count k := by
  unfold weight keys List.keys
  induction m.entries with
  | nil => rfl
  | cons e l ih =>
    rw [List.map_cons, List.map_cons, List.sum_cons, List.count_cons, ih, Nat.add_comm]
    simp

/-- The weight of the entry of a key, if there is one. -/
def weightOf (w : α → β → ℕ) (m : AList fun _ : α => β) (k : α) : ℕ :=
  ((m.lookup k).map (w k)).getD 0

theorem weightOf_eq {w : α → β → ℕ} {m : AList fun _ : α => β} {k : α} {v : β}
    (h : m.lookup k = some v) : weightOf w m k = w k v := by
  rw [weightOf, h]
  rfl

theorem weightOf_eq_zero {w : α → β → ℕ} {m : AList fun _ : α => β} {k : α}
    (h : m.lookup k = none) : weightOf w m k = 0 := by
  rw [weightOf, h]
  rfl

theorem sum_kerase (w : α → β → ℕ) (k : α) (l : List (Sigma fun _ : α => β)) :
    ((l.kerase k).map fun e => w e.1 e.2).sum + ((l.dlookup k).map (w k)).getD 0 =
      (l.map fun e => w e.1 e.2).sum := by
  induction l with
  | nil => rfl
  | cons e l ih =>
    by_cases hk : k = e.1
    · subst hk
      have hlook : List.dlookup e.1 (e :: l) = some e.2 := List.dlookup_cons_eq l e.1 e.2
      rw [hlook, List.kerase_cons_eq rfl]
      simp [Nat.add_comm]
    · rw [List.kerase_cons_ne hk, List.dlookup_cons_ne l e hk]
      simp only [List.map_cons, List.sum_cons]
      omega

theorem weight_erase (w : α → β → ℕ) (m : AList fun _ : α => β) (k : α) :
    weight w (m.erase k) + weightOf w m k = weight w m :=
  sum_kerase w k m.entries

theorem weight_insert (w : α → β → ℕ) (m : AList fun _ : α => β) (k : α) (v : β) :
    weight w (m.insert k v) + weightOf w m k = weight w m + w k v := by
  have herase := weight_erase w m k
  have hins : weight w (m.insert k v) = w k v + weight w (m.erase k) := by
    unfold weight
    rw [AList.entries_insert]
    rfl
  omega

/-- Replacing an entry by one of the same weight changes no weight. -/
theorem weight_replace {w : α → β → ℕ} {m : AList fun _ : α => β} {k : α} {v v' : β}
    (h : m.lookup k = some v) (hw : w k v' = w k v) : weight w (m.insert k v') = weight w m := by
  have hins := weight_insert w m k v'
  rw [weightOf_eq h] at hins
  omega

end AList
