import Mathlib.Data.List.AList

/-!
# Laws about the entries of an association list

`Each P m` says that every value of `m` is in relation `P` to the key it is stored under.
-/

namespace AList

variable {α β : Type*} [DecidableEq α] {m : AList fun _ : α => β}

theorem lookup_insert_eq (m : AList fun _ : α => β) (k k' : α) (v : β) :
    (m.insert k v).lookup k' = if k' = k then some v else m.lookup k' := by
  by_cases hk : k' = k
  · rw [hk, lookup_insert, if_pos rfl]
  · rw [lookup_insert_ne hk, if_neg hk]

theorem lookup_erase_eq (m : AList fun _ : α => β) (k k' : α) :
    (m.erase k).lookup k' = if k' = k then none else m.lookup k' := by
  by_cases hk : k' = k
  · rw [hk, lookup_erase, if_pos rfl]
  · rw [lookup_erase_ne hk, if_neg hk]

def Each (P : α → β → Prop) (m : AList fun _ : α => β) : Prop := ∀ k, ∀ v ∈ m.lookup k, P k v

namespace Each

variable {P : α → β → Prop} {k : α} {v : β}

theorem erase (h : Each P m) (k : α) : Each P (m.erase k) := by
  intro k' v hv
  rw [lookup_erase_eq] at hv
  split at hv
  · cases hv
  · exact h k' v hv

theorem insert (h : Each P m) (hv : P k v) : Each P (m.insert k v) := by
  intro k' v' hv'
  rw [lookup_insert_eq] at hv'
  split at hv'
  · rename_i hk
    rw [hk, ← Option.some.inj hv']
    exact hv
  · exact h k' v' hv'

end Each
end AList
