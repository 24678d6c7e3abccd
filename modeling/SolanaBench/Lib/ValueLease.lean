import Mathlib.Data.List.Nodup

/-!
# Leases on a resource that never takes a value twice

A resource runs through a `history` of pairwise distinct values, the latest last.
An allocator caches one of them and, while it is `free`, may lease it to one
holder. `holds k v` says that `k` has not yet given up a lease on the value `v`;
such a value is at most the cached one, and no two holders share one.
-/

variable {V K : Type*}

structure ValueLease (history : List V) (cached : V) (free : Prop) (holds : K → V → Prop) :
    Prop where
  nodup : history.Nodup
  upTo : ∃ before after, history = before ++ cached :: after ∧
    ∀ k v, holds k v → v ∈ before ∨ v = cached
  unheld : free → ∀ k, ¬holds k cached
  exclusive : ∀ k k' v, holds k v → holds k' v → k = k'

namespace ValueLease

variable {history : List V} {cached : V} {free free' : Prop} {holds holds' : K → V → Prop}

theorem init (v : V) (hno : ∀ k w, ¬holds k w) (free : Prop) :
    ValueLease [v] v free holds where
  nodup := List.nodup_singleton v
  upTo := ⟨[], [], rfl, fun k w h => absurd h (hno k w)⟩
  unheld _ k := hno k v
  exclusive k _ w h _ := absurd h (hno k w)

/-- Holders may give up their leases, and the allocator may stop being free. -/
theorem mono (h : ValueLease history cached free holds) (hfree : free' → free)
    (hsub : ∀ k v, holds' k v → holds k v) : ValueLease history cached free' holds' where
  nodup := h.nodup
  upTo := by
    obtain ⟨before, after, hh, hle⟩ := h.upTo
    exact ⟨before, after, hh, fun k v hv => hle k v (hsub k v hv)⟩
  unheld hf k hk := h.unheld (hfree hf) k (hsub k _ hk)
  exclusive k k' v hk hk' := h.exclusive k k' v (hsub k v hk) (hsub k' v hk')

/-- A free allocator leases the cached value to `key`, and is not free any more. -/
theorem lease (h : ValueLease history cached free holds) (hfree : free) (hfree' : ¬free')
    (key : K) (hnew : ∀ k v, holds' k v → holds k v ∨ k = key ∧ v = cached) :
    ValueLease history cached free' holds' where
  nodup := h.nodup
  upTo := by
    obtain ⟨before, after, hh, hle⟩ := h.upTo
    refine ⟨before, after, hh, fun k v hv => ?_⟩
    rcases hnew k v hv with hold | ⟨-, rfl⟩
    · exact hle k v hold
    · exact Or.inr rfl
  unheld hf := absurd hf hfree'
  exclusive k k' v hk hk' := by
    rcases hnew k v hk with hk | ⟨rfl, rfl⟩ <;> rcases hnew k' v hk' with hk' | ⟨rfl, hv⟩
    · exact h.exclusive k k' v hk hk'
    · exact absurd (hv ▸ hk) (h.unheld hfree k)
    · exact absurd hk' (h.unheld hfree k')
    · rfl

/-- The resource moves on to a value it never had. -/
theorem extend (h : ValueLease history cached free holds) {v : V} (hnew : v ∉ history) :
    ValueLease (history ++ [v]) cached free holds where
  nodup := List.nodup_append.mpr
    ⟨h.nodup, List.nodup_singleton v, fun a ha b hb => by
      rw [List.mem_singleton.mp hb]
      exact fun hab => hnew (hab ▸ ha)⟩
  upTo := by
    obtain ⟨before, after, hh, hle⟩ := h.upTo
    exact ⟨before, after ++ [v], by simp [hh], hle⟩
  unheld := h.unheld
  exclusive := h.exclusive

/-- The allocator caches a value that is later than every lease. -/
theorem renew (h : ValueLease history cached free holds) {v : V} (before after : List V)
    (hh : history = before ++ v :: after) (hle : ∀ k w, holds k w → w ∈ before) :
    ValueLease history v free' holds where
  nodup := h.nodup
  upTo := ⟨before, after, hh, fun k w hw => Or.inl (hle k w hw)⟩
  unheld _ k hk := by
    have hnodup := h.nodup
    rw [hh, List.nodup_append] at hnodup
    exact hnodup.2.2 v (hle k v hk) v (by simp) rfl
  exclusive := h.exclusive

/-- Renewal with the current value: safe unless it is the cached value and still leased. -/
theorem renew_last (h : ValueLease history cached free holds) {v : V}
    (hlast : history.getLast? = some v) (hun : v = cached → ∀ k, ¬holds k v) :
    ValueLease history v free' holds := by
  obtain ⟨before, after, hh, hle⟩ := h.upTo
  rcases List.eq_nil_or_concat after with rfl | ⟨after, w, rfl⟩
  · have hv : cached = v := by simpa [hh] using hlast
    subst hv
    refine h.renew before [] hh fun k u hu => ?_
    rcases hle k u hu with hmem | rfl
    · exact hmem
    · exact absurd hu (hun rfl k)
  · have hsnoc : history = (before ++ cached :: after) ++ [w] := by simp [hh]
    have hv : w = v := by simpa [hsnoc, -List.append_assoc] using hlast
    subst hv
    refine h.renew (before ++ cached :: after) [] hsnoc fun k u hu => ?_
    rcases hle k u hu with hmem | rfl
    · exact List.mem_append_left _ hmem
    · simp

/-- Renewal with the value right after the cached one is always safe. -/
theorem renew_next (h : ValueLease history cached free holds) {v : V} {before' after' : List V}
    (hnext : history = before' ++ cached :: v :: after') : ValueLease history v free' holds := by
  obtain ⟨before, after, hh, hle⟩ := h.upTo
  -- the cached value stands at one place only
  have honce (xs ys) (hx : history = xs ++ cached :: ys) : cached ∉ xs ∧ cached ∉ ys := by
    have hnodup := h.nodup
    rw [hx, List.nodup_middle, List.nodup_cons] at hnodup
    simpa using hnodup.1
  have heq : before ++ cached :: after = before' ++ cached :: v :: after' := hh.symm.trans hnext
  obtain ⟨rfl, -⟩ := (List.append_cons_inj_of_notMem (honce _ _ hh).1 (honce _ _ hh).2).mp heq
  refine h.renew (before ++ [cached]) after' (by simp [hnext]) fun k u hu => ?_
  rcases hle k u hu with hmem | rfl
  · exact List.mem_append_left _ hmem
  · simp

end ValueLease
