import Mathlib.Data.List.AList
import Mathlib.Data.List.Induction

/-!
# Filtering and walking an association list

`retain p m` keeps the entries of a hash map that satisfy `p`. What a walk over all
entries yields about one key depends on the entry of that key only.
-/

namespace AList

variable {α β : Type*}

def retain (p : α → β → Bool) (m : AList fun _ : α => β) : AList fun _ : α => β where
  entries := m.entries.filter fun e => p e.1 e.2
  nodupKeys := m.nodupKeys.sublist List.filter_sublist

variable [DecidableEq α]

theorem lookup_retain (p : α → β → Bool) (m : AList fun _ : α => β) (k : α) :
    (m.retain p).lookup k = (m.lookup k).filter (p k) := by
  refine Option.ext fun v => ?_
  have hmem : v ∈ (m.retain p).lookup k ↔ v ∈ m.lookup k ∧ p k v := by
    rw [AList.mem_lookup_iff, AList.mem_lookup_iff]
    exact List.mem_filter
  rw [Option.filter_eq_some_iff]
  exact hmem

/-- A walk over the entries, seen through a view that other keys do not reach. -/
theorem filterMap_flatMap_entries {ε π : Type*} (m : AList fun _ : α => β)
    (f : α → β → List ε) (view : ε → Option π) (k : α)
    (hother : ∀ e ∈ m.entries, e.1 ≠ k → (f e.1 e.2).filterMap view = []) :
    (m.entries.flatMap fun e => f e.1 e.2).filterMap view =
      ((m.lookup k).toList.flatMap fun v => f k v).filterMap view := by
  have hnodup := m.nodupKeys
  have hlookup : m.lookup k = m.entries.dlookup k := rfl
  rw [hlookup]
  clear hlookup
  generalize m.entries = es at *
  induction es with
  | nil => rfl
  | cons e es ih =>
    obtain ⟨hnew, hrest⟩ := List.nodupKeys_cons.mp hnodup
    rw [List.flatMap_cons, List.filterMap_append]
    by_cases hk : e.1 = k
    · subst hk
      have hnone : (es.flatMap fun e => f e.1 e.2).filterMap view = [] := by
        rw [List.filterMap_flatMap, List.flatMap_eq_nil_iff]
        intro e' he'
        refine hother e' (List.mem_cons_of_mem e he') fun heq => hnew ?_
        rw [← heq]
        exact List.mem_map_of_mem he'
      rw [hnone, List.append_nil]
      obtain ⟨k, v⟩ := e
      rw [List.dlookup_cons_eq]
      simp
    · obtain ⟨k', v'⟩ := e
      rw [hother ⟨k', v'⟩ List.mem_cons_self hk, List.nil_append, List.dlookup_cons_ne _ _ (Ne.symm hk)]
      exact ih (fun e' he' => hother e' (List.mem_cons_of_mem _ he')) hrest

/-- The entries of a list inserted one after the other. -/
def insertAll (m : AList fun _ : α => β) (l : List (α × β)) : AList fun _ : α => β :=
  l.foldl (fun m e => m.insert e.1 e.2) m

theorem lookup_insertAll (m : AList fun _ : α => β) (l : List (α × β)) (k : α) :
    (m.insertAll l).lookup k =
      ((l.filterMap fun e => if e.1 = k then some e.2 else none).getLast?).or (m.lookup k) := by
  induction l using List.reverseRecOn with
  | nil => rfl
  | append_singleton l e ih =>
    have hsnoc : m.insertAll (l ++ [e]) = (m.insertAll l).insert e.1 e.2 := by simp [insertAll]
    rw [hsnoc, List.filterMap_append]
    by_cases hk : e.1 = k
    · rw [← hk, lookup_insert]
      simp
    · rw [lookup_insert_ne (Ne.symm hk), ih]
      simp [hk]

end AList
