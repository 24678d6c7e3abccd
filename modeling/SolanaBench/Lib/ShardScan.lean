import Mathlib.Algebra.GroupWithZero.Nat
import Mathlib.Data.List.AList

/-!
# Taking keys out of a sharded map that others write to

A reader that wants some keys of a concurrent map reads the shards one after the other
and notes the wanted keys it sees, and then removes the noted keys one by one. Each
`advance` is one atomic step; between two of them others may insert. An entry is caught
when it is in the map before its shard is read and missed when it comes later.
-/

namespace ShardScan

variable {κ ν : Type*} [DecidableEq κ] {n : ℕ}

structure Reader (κ ν : Type*) where
  /-- The shards read so far. -/
  next : ℕ := 0
  /-- The wanted keys noted and not yet removed. -/
  found : List κ := []
  taken : List (κ × ν) := []

/-- The next shard, or, when all are read, the next noted key. -/
def advance (shard : κ → Fin n) (wanted : κ → Bool) (r : Reader κ ν) (m : AList fun _ : κ => ν) :
    Reader κ ν × AList fun _ : κ => ν :=
  if r.next < n then
    ({ r with
        next := r.next + 1
        found := r.found ++ m.keys.filter fun k => wanted k && decide ((shard k).val = r.next) }, m)
  else
    match r.found with
    | [] => (r, m)
    | k :: ks =>
      match m.lookup k with
      | some v => ({ r with found := ks, taken := r.taken ++ [(k, v)] }, m.erase k)
      | none => ({ r with found := ks }, m)

structure Done (n : ℕ) (r : Reader κ ν) : Prop where
  next : r.next = n
  found : r.found = []

/-- The entry is in the map and will be removed, or it has been taken. -/
def Caught (shard : κ → Fin n) (r : Reader κ ν) (m : AList fun _ : κ => ν) (k : κ) (v : ν) : Prop :=
  (m.lookup k = some v ∧ (r.next ≤ shard k ∨ k ∈ r.found)) ∨ (k ∉ m ∧ (k, v) ∈ r.taken)

/-- The entry is in the map and its shard was read without it. -/
def Missed (shard : κ → Fin n) (r : Reader κ ν) (m : AList fun _ : κ => ν) (k : κ) : Prop :=
  k ∈ m ∧ k ∉ r.found ∧ (shard k).val < r.next

def Absent (r : Reader κ ν) (m : AList fun _ : κ => ν) (k : κ) : Prop := k ∉ m ∧ k ∉ r.found

variable {shard : κ → Fin n} {wanted : κ → Bool} {r : Reader κ ν} {m : AList fun _ : κ => ν}
  {k k' : κ} {v v' : ν}

theorem Missed.not_caught (h : Missed shard r m k) : ¬Caught shard r m k v := by
  obtain ⟨hm, hf, hread⟩ := h
  rintro (⟨-, hnext | hfound⟩ | ⟨habs, -⟩)
  · omega
  · exact hf hfound
  · exact habs hm

/-! ## The reader's steps -/

theorem Caught.advance (hw : wanted k) (h : Caught shard r m k v) :
    Caught shard (advance shard wanted r m).1 (advance shard wanted r m).2 k v := by
  have hshard := (shard k).isLt
  unfold ShardScan.advance
  by_cases hnext : r.next < n
  · rw [if_pos hnext]
    rcases h with ⟨hm, hwait | hfound⟩ | htaken
    · refine Or.inl ⟨hm, ?_⟩
      by_cases hnow : (shard k).val = r.next
      · have hk : k ∈ m.keys := AList.mem_keys.mp (AList.lookup_isSome.mp (by simp [hm]))
        exact Or.inr (by simp [hk, hw, hnow])
      · exact Or.inl (by dsimp only; omega)
    · exact Or.inl ⟨hm, Or.inr (by simp [hfound])⟩
    · exact Or.inr htaken
  · rw [if_neg hnext]
    cases hf : r.found with
    | nil => exact h
    | cons k₀ ks =>
      dsimp only
      cases hlook : m.lookup k₀ with
      | none =>
        rcases h with ⟨hm, hwait | hfound⟩ | htaken
        · omega
        · have hne : k ≠ k₀ := by
            rintro rfl
            rw [hm] at hlook
            cases hlook
          exact Or.inl ⟨hm, Or.inr (by simpa [hf, hne] using hfound)⟩
        · exact Or.inr htaken
      | some v₀ =>
        dsimp only
        rcases h with ⟨hm, hwait | hfound⟩ | ⟨habs, htaken⟩
        · omega
        · by_cases heq : k = k₀
          · subst heq
            obtain rfl : v = v₀ := Option.some.inj (hm.symm.trans hlook)
            exact Or.inr ⟨fun hmem => (AList.mem_erase.mp hmem).1 rfl, by simp⟩
          · exact Or.inl ⟨by rwa [AList.lookup_erase_ne heq], Or.inr (by simpa [hf, heq] using hfound)⟩
        · exact Or.inr ⟨fun hmem => habs (AList.mem_erase.mp hmem).2, by simp [htaken]⟩

theorem Missed.advance (h : Missed shard r m k) :
    Missed shard (advance shard wanted r m).1 (advance shard wanted r m).2 k := by
  obtain ⟨hm, hf, hread⟩ := h
  unfold ShardScan.advance
  by_cases hnext : r.next < n
  · rw [if_pos hnext]
    have hother : (shard k).val ≠ r.next := by omega
    exact ⟨hm, by simp [hf, hother], by dsimp only; omega⟩
  · rw [if_neg hnext]
    cases hfound : r.found with
    | nil => exact ⟨hm, hf, hread⟩
    | cons k₀ ks =>
      obtain ⟨hne, hrest⟩ : k ≠ k₀ ∧ k ∉ ks := by simpa [hfound] using hf
      dsimp only
      cases m.lookup k₀ with
      | none => exact ⟨hm, hrest, hread⟩
      | some v₀ => exact ⟨AList.mem_erase.mpr ⟨hne, hm⟩, hrest, hread⟩

theorem Absent.advance (h : Absent r m k) :
    Absent (advance shard wanted r m).1 (advance shard wanted r m).2 k := by
  obtain ⟨hm, hf⟩ := h
  unfold ShardScan.advance
  by_cases hnext : r.next < n
  · rw [if_pos hnext]
    exact ⟨hm, by simp [hf, AList.mem_keys.not.mp hm]⟩
  · rw [if_neg hnext]
    cases hfound : r.found with
    | nil => exact ⟨hm, hf⟩
    | cons k₀ ks =>
      obtain ⟨-, hrest⟩ : k ≠ k₀ ∧ k ∉ ks := by simpa [hfound] using hf
      dsimp only
      cases m.lookup k₀ with
      | none => exact ⟨hm, hrest⟩
      | some v₀ => exact ⟨fun hmem => hm (AList.mem_erase.mp hmem).2, hrest⟩

/-! ## Inserts between them -/

theorem Caught.insert (h : Caught shard r m k v) (hne : k ≠ k') :
    Caught shard r (m.insert k' v') k v := by
  rcases h with ⟨hm, hready⟩ | ⟨habs, htaken⟩
  · exact Or.inl ⟨by rwa [AList.lookup_insert_ne hne], hready⟩
  · exact Or.inr ⟨by simp [AList.mem_insert, hne, habs], htaken⟩

theorem Missed.insert (h : Missed shard r m k) : Missed shard r (m.insert k' v') k :=
  ⟨AList.mem_insert _ |>.mpr (Or.inr h.1), h.2⟩

theorem Absent.insert (h : Absent r m k) (hne : k ≠ k') : Absent r (m.insert k' v') k :=
  ⟨by simp [AList.mem_insert, hne, h.1], h.2⟩

/-- A new entry is caught when its shard is still to be read. -/
theorem caught_insert (hnext : r.next ≤ shard k) : Caught shard r (m.insert k v) k v :=
  Or.inl ⟨AList.lookup_insert m, Or.inl hnext⟩

theorem missed_insert (h : Absent r m k) (hread : (shard k).val < r.next) :
    Missed shard r (m.insert k v) k :=
  ⟨(AList.mem_insert m).mpr (Or.inl rfl), h.2, hread⟩

/-! ## When the reader is done -/

theorem Caught.done (h : Caught shard r m k v) (hdone : Done n r) : k ∉ m ∧ (k, v) ∈ r.taken := by
  rcases h with ⟨-, hnext | hfound⟩ | htaken
  · have hshard := (shard k).isLt
    rw [hdone.next] at hnext
    omega
  · simp [hdone.found] at hfound
  · exact htaken

/-! ## A reader no one interrupts -/

/-- Steps of the reader alone. -/
def alone (shard : κ → Fin n) (wanted : κ → Bool) (m : AList fun _ : κ => ν) :
    ℕ → Reader κ ν × AList fun _ : κ => ν
  | 0 => ({}, m)
  | steps + 1 =>
    let s := alone shard wanted m steps
    advance shard wanted s.1 s.2

/-- What the reader has when it started on the map `m`. -/
structure Sound (wanted : κ → Bool) (m : AList fun _ : κ => ν) (r : Reader κ ν)
    (m' : AList fun _ : κ => ν) : Prop where
  found : ∀ k ∈ r.found, wanted k
  taken : ∀ e ∈ r.taken, wanted e.1 ∧ m.lookup e.1 = some e.2
  shrinks : ∀ k v, m'.lookup k = some v → m.lookup k = some v
  frame : ∀ k, ¬wanted k → m'.lookup k = m.lookup k

theorem Sound.advance {m₀ : AList fun _ : κ => ν} (h : Sound wanted m₀ r m) :
    Sound wanted m₀ (advance shard wanted r m).1 (advance shard wanted r m).2 := by
  unfold ShardScan.advance
  by_cases hnext : r.next < n
  · rw [if_pos hnext]
    refine ⟨fun k hk => ?_, h.taken, h.shrinks, h.frame⟩
    rcases List.mem_append.mp hk with hold | hnew
    · exact h.found k hold
    · simpa using And.left (by simpa using (List.mem_filter.mp hnew).2)
  · rw [if_neg hnext]
    cases hf : r.found with
    | nil => exact h
    | cons k₀ ks =>
      have hk₀ := h.found k₀ (by simp [hf])
      have hks : ∀ k ∈ ks, wanted k := fun k hk => h.found k (by simp [hf, hk])
      dsimp only
      cases hlook : m.lookup k₀ with
      | none => exact ⟨hks, h.taken, h.shrinks, h.frame⟩
      | some v₀ =>
        refine ⟨hks, fun e he => ?_, fun k v hk => ?_, fun k hk => ?_⟩
        · rcases List.mem_append.mp he with hold | hnew
          · exact h.taken e hold
          · obtain rfl := List.mem_singleton.mp hnew
            exact ⟨hk₀, h.shrinks k₀ v₀ hlook⟩
        · by_cases heq : k = k₀
          · subst heq
            simp at hk
          · rw [AList.lookup_erase_ne heq] at hk
            exact h.shrinks k v hk
        · have hne : k ≠ k₀ := fun heq => hk (heq ▸ hk₀)
          rw [AList.lookup_erase_ne hne]
          exact h.frame k hk

theorem alone_sound (shard : κ → Fin n) (wanted : κ → Bool) (m : AList fun _ : κ => ν)
    (steps : ℕ) : Sound wanted m (alone shard wanted m steps).1 (alone shard wanted m steps).2 := by
  induction steps with
  | zero => exact ⟨by simp [alone], by simp [alone], fun _ _ hk => hk, fun _ _ => rfl⟩
  | succ steps ih => exact ih.advance

theorem alone_caught {k : κ} {v : ν} (hw : wanted k) (hk : m.lookup k = some v) (steps : ℕ) :
    Caught shard (alone shard wanted m steps).1 (alone shard wanted m steps).2 k v := by
  induction steps with
  | zero => exact Or.inl ⟨hk, Or.inl (Nat.zero_le _)⟩
  | succ steps ih => exact ih.advance hw

/-- Alone the reader takes the wanted part of the map and leaves the rest. -/
theorem alone_done {steps : ℕ} (hdone : Done n (alone shard wanted m steps).1) :
    (∀ k v, (k, v) ∈ (alone shard wanted m steps).1.taken ↔ wanted k ∧ m.lookup k = some v) ∧
      ∀ k, (alone shard wanted m steps).2.lookup k = if wanted k then none else m.lookup k := by
  have hsound := alone_sound shard wanted m steps
  refine ⟨fun k v => ⟨hsound.taken (k, v), fun h => ?_⟩, fun k => ?_⟩
  · exact ((alone_caught h.1 h.2 steps).done hdone).2
  · by_cases hw : wanted k
    · rw [if_pos hw]
      cases hk : (alone shard wanted m steps).2.lookup k with
      | none => rfl
      | some v =>
        have hin : Caught shard _ _ k v := alone_caught hw (hsound.shrinks k v hk) steps
        have hmem : k ∈ (alone shard wanted m steps).2 := AList.lookup_isSome.mp (by simp [hk])
        exact absurd hmem (hin.done hdone).1
    · rw [if_neg hw]
      exact hsound.frame k hw

end ShardScan
