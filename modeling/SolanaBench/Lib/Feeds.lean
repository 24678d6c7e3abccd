import SolanaBench.Lib.WindowCount

/-!
# Feeds of one sequence

Several sources deliver the items of one sequence, each of them in order and without gaps.
Which source is ahead may change all the time; the items are first seen in the order of the
sequence.
-/

variable {σ α : Type*} [DecidableEq σ]

/-- The items that came from one source. -/
def feedOf (s : σ) (is : List (σ × α)) : List α := (is.filter fun i => i.1 = s).map Prod.snd

theorem feedOf_snoc (s : σ) (is : List (σ × α)) (i : σ × α) :
    feedOf s (is ++ [i]) = feedOf s is ++ if i.1 = s then [i.2] else [] := by
  unfold feedOf
  by_cases h : i.1 = s <;> simp [h]

theorem mem_of_mem_feedOf {s : σ} {is : List (σ × α)} {x : α} (h : x ∈ feedOf s is) :
    x ∈ is.map Prod.snd := by
  obtain ⟨i, hi, rfl⟩ := List.mem_map.mp h
  exact List.mem_map_of_mem (List.mem_of_mem_filter hi)

/-- A part of a duplicate-free list up to some place that holds what comes before a missing item
ends right there. -/
theorem prefix_snoc_of_mem {l os fs : List α} {x : α} (hl : l.Nodup) (hos : os <+: l)
    (hfs : fs ++ [x] <+: l) (hsub : ∀ y ∈ fs, y ∈ os) (hx : x ∉ os) : os ++ [x] <+: l := by
  have hle : fs.length ≤ os.length :=
    ((hl.sublist ((List.prefix_append fs [x]).trans hfs).sublist).subperm hsub).length_le
  rcases hle.lt_or_eq with hlt | heq
  · -- the part would hold the item
    have hpre : fs ++ [x] <+: os :=
      List.prefix_of_prefix_length_le hfs hos (by rw [List.length_append]; exact hlt)
    exact absurd (hpre.subset (by simp)) hx
  · have hsame : fs = os := by
      refine List.IsPrefix.eq_of_length (List.prefix_of_prefix_length_le ?_ hos hle) heq
      exact (List.prefix_append fs [x]).trans hfs
    rw [← hsame]
    exact hfs

open WindowRule (Repeats)

/-- Whatever the interleaving of the feeds, the items are first seen in order. -/
theorem prefix_of_feeds {l os : List α} (hl : l.Nodup) {is : List (σ × α)}
    (h : Repeats os (is.map Prod.snd)) (hnodup : os.Nodup) (hfeeds : ∀ s, feedOf s is <+: l) :
    os <+: l := by
  induction is using List.reverseRecOn generalizing os with
  | nil =>
    generalize hd : ([] : List (σ × α)).map Prod.snd = d at h
    cases h with
    | nil => exact List.nil_prefix
    | next h x => simp at hd
    | again h hx => simp at hd
  | append_singleton is i ih =>
    have hbefore : ∀ s, feedOf s is <+: l := fun s =>
      (List.prefix_append _ _).trans (feedOf_snoc s is i ▸ hfeeds s)
    have hlast := hfeeds i.1
    rw [feedOf_snoc, if_pos rfl] at hlast
    rw [List.map_append, List.map_singleton] at h
    generalize hd : is.map Prod.snd ++ [i.2] = d at h
    cases h with
    | nil => simp at hd
    | next h x =>
      obtain ⟨rfl, hx⟩ := List.append_inj' hd rfl
      obtain rfl := (List.cons.inj hx).1
      obtain ⟨hos, -, hnew⟩ := List.nodup_append.mp hnodup
      refine prefix_snoc_of_mem hl (ih h hos hbefore) hlast (fun y hy => ?_) fun hin =>
        hnew _ hin _ (List.mem_singleton_self _) rfl
      exact h.mem y (mem_of_mem_feedOf hy)
    | again h hx =>
      obtain ⟨rfl, -⟩ := List.append_inj' hd rfl
      exact ih h hnodup hbefore
