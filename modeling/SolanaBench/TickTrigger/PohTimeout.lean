import SolanaBench.TickTrigger.PohSequence

/-! When a sweep hands out everything that has waited for `entry_timeout`. -/
namespace SolanaBench.TickTrigger.PohSupervisor

/-- The entry has waited for `entry_timeout`. -/
def Overdue (cfg : Config) (now : Instant) (p : PendingEntry) : Prop :=
  p.bufferedAt + cfg.entryTimeout ≤ now

/-- The buffered entry was emitted, and every gap of its slot before it given up. -/
structure Released (k : ℕ) (s : PohSlot) (os : List OrderedEvent) (p : U32 × PendingEntry) :
    Prop where
  entry : ∃ x ∈ entriesIn os, x.observation = p.2.merged.observation
  gaps : ∀ i, s.nextExpectedIdx ≤ i → i < p.1 →
    (∃ q ∈ s.pending.entries, q.1 = i) ∨ ∃ w, OrderedEvent.missing ⟨k, i, w⟩ ∈ os

/-- A sweep leaves nothing overdue in the buffer of an open slot, and releases what was. -/
structure TimeoutLaw (cfg : Config) (st : State) (now : Instant) : Prop where
  kept : ∀ e ∈ (sweep cfg st now).1.slots.entries, e.2.sealed = false →
    ∀ p ∈ e.2.pending.entries, ¬Overdue cfg now p.2
  released : ∀ e ∈ st.slots.entries, e.2.sealed = false → ∀ p ∈ e.2.pending.entries,
    Overdue cfg now p.2 → Released e.1 e.2 (Effect.sent (sweep cfg st now).2) p

/-- In an open slot that is not due for sealing, an overdue entry waits behind no gap whose
first entry has waited less. -/
def GapsExpireInOrder (cfg : Config) (st : State) (now : Instant) : Prop :=
  ∀ e ∈ st.slots.entries, e.2.sealed = false → lagsBehind cfg st.maxSlot e.1 = false →
    ∀ p ∈ e.2.pending.entries, Overdue cfg now p.2 →
      ∀ d ∈ e.2.pending.entries, d.1 ≤ p.1 → (∀ f ∈ e.2.pending.entries, f.1 + 1 ≠ d.1) →
        cfg.entryTimeout ≤ now.saturatingDurationSince d.2.bufferedAt

instance (cfg : Config) (now : Instant) (p : PendingEntry) : Decidable (Overdue cfg now p) :=
  Nat.decLe _ _

instance (cfg : Config) (st : State) (now : Instant) : Decidable (GapsExpireInOrder cfg st now) :=
  inferInstanceAs (Decidable (∀ e ∈ _, _ → _ → ∀ p ∈ _, _ → ∀ d ∈ _, _ → (∀ f ∈ _, _) → _))

section

variable {cfg : Config} {now : Instant} {k : ℕ} {s t u : PohSlot} {os es : List OrderedEvent}
  {p d : U32 × PendingEntry}

/-- Phase A stops before a gap that has not expired. -/
theorem mem_sweepGaps_of_young (hs : Resting (Own (fun _ => True) k) s) (hu : s.sealed = false)
    (hd : d ∈ s.pending.entries) (hgap : ∀ f ∈ s.pending.entries, f.1 + 1 ≠ d.1)
    (hyoung : ¬cfg.entryTimeout ≤ now.saturatingDurationSince d.2.bufferedAt)
    (hp : p ∈ s.pending.entries) (hle : d.1 ≤ p.1) :
    p ∈ ((sweepGaps cfg k now).exec s).1.pending.entries := by
  have hrun := (sweepGaps cfg k now).exec_rule (s := s) (fun t _ =>
    Opened (Own (fun _ => True) k) t ∧ (∀ e ∈ t.pending.entries, e ∈ s.pending.entries) ∧
      t.nextExpectedIdx < d.1 ∧ ∀ x ∈ s.pending.entries, d.1 ≤ x.1 → x ∈ t.pending.entries)
    ⟨hs.opened hu, fun e he => he, hs.beyondNext d hd, fun x hx _ => hx⟩ (by
      intro t _ u es ⟨ht, hsub, hnext, hkeep⟩ hb
      have hit : DrainIteration cfg k now t (u, es) := sweepGaps_iteration hb
      obtain ⟨hopen, hsub'⟩ := hit.opened ht
      refine ⟨hopen, fun e he => hsub e (hsub' e he), ?_⟩
      simp only [sweepGaps] at hb
      split at hb
      · next e he =>
        have hmem := SortedMap.firstKeyValue_mem he
        split_ifs at hb with heq hage
        · -- the first entry is expected, so it comes before the gap and does not end it
          cases hb
          refine ⟨lt_of_le_of_ne (Fin.add_one_le_of_lt hnext) ?_, fun x hx hdx => ?_⟩
          · rw [← heq]
            exact hgap e (hsub e hmem)
          · have hxt := hkeep x hx hdx
            rw [SortedMap.entries_of_firstKeyValue he] at hxt
            rcases List.mem_cons.mp hxt with rfl | hrest
            · exact absurd hdx (not_le.mpr (heq ▸ hnext))
            · exact hrest
        · -- its own gap has expired, so it is not the one that keeps waiting
          cases hb
          refine ⟨?_, hkeep⟩
          have hdt := hkeep d hd (le_refl _)
          have hlt : e.1 < d.1 := by
            refine lt_of_le_of_ne (SortedMap.firstKeyValue_le he d hdt) fun hkey => hyoung ?_
            obtain ⟨i, v⟩ := e
            obtain ⟨j, w⟩ := d
            cases hkey
            rw [← SortedMap.eq_of_mem_entries hmem hdt]
            exact hage
          exact (Fin.add_one_le_of_lt (beyondNext_of_first_ne ht.atLeastNext he heq e hmem)).trans_lt hlt
      · cases hb)
  exact hrun.2.2.2 p hp hle

/-! ## What leaves the buffer -/

/-- From `s` to `t` slot `k` has sent `os`. -/
structure Drained (k : ℕ) (s : PohSlot) (os : List OrderedEvent) (t : PohSlot) : Prop where
  kept : ∀ p ∈ t.pending.entries, p ∈ s.pending.entries
  gaps : ∀ i, s.nextExpectedIdx ≤ i → i < t.nextExpectedIdx →
    (∃ q ∈ s.pending.entries, q.1 = i) ∨ ∃ w, OrderedEvent.missing ⟨k, i, w⟩ ∈ os
  released : ∀ p ∈ s.pending.entries, p ∈ t.pending.entries ∨ Released k s os p

theorem Released.mono (h : Released k s os p) (hsub : ∀ x ∈ os, x ∈ es) : Released k s es p where
  entry := by
    obtain ⟨x, hx, hobs⟩ := h.entry
    exact ⟨x, mem_entriesIn.mpr (hsub _ (mem_entriesIn.mp hx)), hobs⟩
  gaps i hi hip := (h.gaps i hi hip).imp id fun ⟨w, hw⟩ => ⟨w, hsub _ hw⟩

theorem drained_refl (k : ℕ) (s : PohSlot) : Drained k s [] s where
  kept _ hp := hp
  gaps _ hi hlt := absurd hlt (not_lt.mpr hi)
  released _ hp := Or.inl hp

theorem le_of_lt_add_one {i n : U32} (h : i < n + 1) : i ≤ n := by
  have hval : (n + 1).val = (n.val + 1) % 2 ^ 32 := rfl
  rw [Fin.lt_def, hval] at h
  exact Fin.le_def.mpr (Nat.lt_succ_iff.mp (h.trans_le (Nat.mod_le _ _)))

theorem Drained.trans (h : Drained k s os t) (h' : Drained k t es u) :
    Drained k s (os ++ es) u where
  kept p hp := h.kept p (h'.kept p hp)
  gaps i hi hlt := by
    by_cases hit : i < t.nextExpectedIdx
    · exact (h.gaps i hi hit).imp id fun ⟨w, hw⟩ => ⟨w, List.mem_append_left _ hw⟩
    · exact (h'.gaps i (not_lt.mp hit) hlt).imp (fun ⟨q, hq, hqi⟩ => ⟨q, h.kept q hq, hqi⟩)
        fun ⟨w, hw⟩ => ⟨w, List.mem_append_right _ hw⟩
  released p hp := by
    rcases h.released p hp with hpt | hreleased
    · refine (h'.released p hpt).imp id fun hreleased => ⟨?_, fun i hi hip => ?_⟩
      · obtain ⟨x, hx, hobs⟩ := hreleased.entry
        exact ⟨x, by simp [hx], hobs⟩
      · by_cases hit : i < t.nextExpectedIdx
        · exact (h.gaps i hi hit).imp id fun ⟨w, hw⟩ => ⟨w, List.mem_append_left _ hw⟩
        · exact (hreleased.gaps i (not_lt.mp hit) hip).imp
            (fun ⟨q, hq, hqi⟩ => ⟨q, h.kept q hq, hqi⟩) fun ⟨w, hw⟩ => ⟨w, List.mem_append_right _ hw⟩
    · exact Or.inr (hreleased.mono fun x hx => List.mem_append_left _ hx)

/-- One iteration emits the first entry, which is expected, or gives up the gap before it. -/
theorem DrainIteration.drained {r : PohSlot × List Output} (h : DrainIteration cfg k now t r) :
    Drained k t (Effect.sent r.2) r.1 := by
  obtain ⟨e, he, ⟨heq, rfl⟩ | ⟨-, rfl⟩⟩ := h
  · have hmem := SortedMap.firstKeyValue_mem he
    refine ⟨fun p hp => SortedMap.mem_popFirst hp, fun i hi hlt => Or.inl ⟨e, hmem, ?_⟩, fun p hp => ?_⟩
    · exact heq.trans (le_antisymm hi (le_of_lt_add_one hlt))
    · rw [SortedMap.entries_of_firstKeyValue he] at hp
      rcases List.mem_cons.mp hp with rfl | hrest
      · refine Or.inr ⟨⟨_, List.mem_singleton_self _, rfl⟩, fun i hi hip => ?_⟩
        exact absurd hip (not_lt.mpr (heq ▸ hi))
      · exact Or.inl hrest
  · refine ⟨fun p hp => hp, fun i hi hlt => Or.inr ?_, fun p hp => Or.inl hp⟩
    have hnext := le_antisymm hi (le_of_lt_add_one hlt)
    exact ⟨_, List.mem_singleton.mpr (by rw [← hnext])⟩

theorem exec_drained {L : WhileLoop PohSlot Output}
    (hL : ∀ s r, L.body s = some r → DrainIteration cfg k now s r) (s : PohSlot) :
    Drained k s (Effect.sent (L.exec s).2) (L.exec s).1 :=
  L.exec_rule (fun t os => Drained k s (Effect.sent os) t) (drained_refl k s) (by
    intro t os u es ht hb
    rw [Effect.sent_append]
    exact ht.trans (hL t (u, es) hb).drained)

theorem sealSlot_drained (cfg : Config) (s : PohSlot) (k : ℕ) (now : Instant) :
    Drained k s (Effect.sent (sealSlot cfg s k now).2) (sealSlot cfg s k now).1 := by
  rw [sent_sealSlot]
  have hflush : ∀ t : PohSlot × List Output, Drained k s (Effect.sent t.2) t.1 → ∀ x,
      Drained k s (Effect.sent t.2 ++ [x]) { t.1 with sealed := true } := by
    intro t ht x
    have hclose : Drained k t.1 [x] { t.1 with sealed := true } :=
      ⟨fun p hp => hp, fun _ hi hlt => absurd hlt (not_lt.mpr hi), fun _ hp => Or.inl hp⟩
    exact ht.trans hclose
  cases hlast : s.pending.lastKeyValue with
  | none =>
    have hsame := hflush (s, []) (drained_refl k s) (terminalEvent (sealSlot cfg s k now).1 k)
    unfold sealSlot at hsame ⊢
    simpa [hlast] using hsame
  | some e =>
    have hloop := hflush ((flushPending cfg k now e.1).exec s)
      (exec_drained (fun _ _ => flushPending_iteration) s) (terminalEvent (sealSlot cfg s k now).1 k)
    unfold sealSlot at hloop ⊢
    simpa [hlast] using hloop

theorem ifUnsealed_drained {f : PohSlot → PohSlot × List Output}
    (hf : Drained k s (Effect.sent (f s).2) (f s).1) :
    Drained k s (Effect.sent (ifUnsealed f s).2) (ifUnsealed f s).1 :=
  ifUnsealed_rule (C := fun r => Drained k s (Effect.sent r.2) r.1) (fun _ => drained_refl k s)
    fun _ => hf

theorem sweepSlot_drained (cfg : Config) (k maxSlot : ℕ) (now : Instant) (s : PohSlot) :
    Drained k s (Effect.sent (sweepSlot cfg k maxSlot now s).2) (sweepSlot cfg k maxSlot now s).1 := by
  have hgaps : Drained k s _ _ := ifUnsealed_drained (f := fun s => (sweepGaps cfg k now).exec s)
    (exec_drained (fun _ _ => sweepGaps_iteration) s)
  unfold sweepSlot
  dsimp only
  split
  · rw [Effect.sent_append]
    exact hgaps.trans (ifUnsealed_drained (sealSlot_drained cfg _ k now))
  · exact hgaps

/-! ## The sweep -/

theorem sweepSlot_of_open (hu : s.sealed = false) (maxSlot : ℕ)
    (hlag : lagsBehind cfg maxSlot k = false) :
    sweepSlot cfg k maxSlot now s = (sweepGaps cfg k now).exec s := by
  unfold sweepSlot
  simp [hlag, ifUnsealed_unsealed hu]

theorem TimeoutLaw.gapsExpireInOrder {st : State} (h : Kept st.slots) {cfg : Config}
    {now : Instant} (law : TimeoutLaw cfg st now) : GapsExpireInOrder cfg st now := by
  rintro ⟨k, s⟩ he hu hlag p hp hoverdue d hd hle hgap
  by_contra hyoung
  have hs := SortedMap.get?_eq_some_iff.mpr he
  have hrest := h.resting k s hs
  have hsweep : sweepSlot cfg k st.maxSlot now s = (sweepGaps cfg k now).exec s :=
    sweepSlot_of_open hu st.maxSlot hlag
  obtain ⟨-, -, hsealed⟩ := sweepSlot_trace (Q := fun _ _ => True) cfg st.maxSlot now hrest
  have hunsealed : (sweepSlot cfg k st.maxSlot now s).1.sealed = false := by
    rw [hsealed, hu, hlag]
    rfl
  have hkept : (sweep cfg st now).1.slots.get? k = some (sweepSlot cfg k st.maxSlot now s).1 := by
    rw [get?_sweep, hs, Option.map_some, Option.filter_some, if_pos]
    simp [keeps, hunsealed]
  have hleft := mem_sweepGaps_of_young hrest hu hd hgap hyoung hp hle
  rw [← hsweep] at hleft
  exact law.kept _ (SortedMap.get?_eq_some_iff.mp hkept) hunsealed p hleft hoverdue

/-- Where the gaps expire in order, a slot that stays open keeps nothing overdue. -/
theorem not_overdue_sweepSlot {st : State} (h : Kept st.slots)
    (horder : GapsExpireInOrder cfg st now) (hs : st.slots.get? k = some s) (hu : s.sealed = false)
    (hunsealed : (sweepSlot cfg k st.maxSlot now s).1.sealed = false)
    (hp : p ∈ (sweepSlot cfg k st.maxSlot now s).1.pending.entries) : ¬Overdue cfg now p.2 := by
  intro hoverdue
  obtain ⟨-, -, hsealed⟩ := sweepSlot_trace (Q := fun _ _ => True) cfg st.maxSlot now
    (h.resting k s hs)
  rw [hunsealed, eq_comm, Bool.or_eq_false_iff] at hsealed
  rw [sweepSlot_of_open hu st.maxSlot hsealed.2] at hp
  obtain ⟨hmem, d, hd, hle, hgap, hyoung⟩ := young_of_mem_sweepGaps (h.resting k s hs) hu hp
  exact hyoung (horder _ (SortedMap.get?_eq_some_iff.mp hs) hu hsealed.2 p hmem hoverdue d hd
    hle hgap)

theorem GapsExpireInOrder.timeoutLaw {st : State} (h : Kept st.slots) {cfg : Config}
    {now : Instant} (horder : GapsExpireInOrder cfg st now) : TimeoutLaw cfg st now := by
  constructor
  · rintro ⟨k, t⟩ he hu p hp
    have ht := SortedMap.get?_eq_some_iff.mpr he
    rw [get?_sweep] at ht
    obtain ⟨s, hs, rfl⟩ := Option.map_eq_some_iff.mp (Option.filter_eq_some_iff.mp ht).1
    obtain ⟨-, -, hsealed⟩ := sweepSlot_trace (Q := fun _ _ => True) cfg st.maxSlot now
      (h.resting k s hs)
    dsimp only at hu
    rw [hu, eq_comm, Bool.or_eq_false_iff] at hsealed
    exact not_overdue_sweepSlot h horder hs hsealed.1 hu hp
  · rintro ⟨k, s⟩ he hu p hp hoverdue
    have hs := SortedMap.get?_eq_some_iff.mpr he
    have hsent : Effect.sent (sweepSlot cfg k st.maxSlot now s).2 =
        eventsOf k (Effect.sent (sweep cfg st now).2) := by
      rw [eventsOf_sweep cfg now h.resting, hs]
      rfl
    have hdrained := sweepSlot_drained cfg k st.maxSlot now s
    rw [hsent] at hdrained
    rcases hdrained.released p hp with hleft | hreleased
    · cases hunsealed : (sweepSlot cfg k st.maxSlot now s).1.sealed with
      | false => exact absurd hoverdue (not_overdue_sweepSlot h horder hs hu hunsealed hleft)
      | true =>
        rw [sealedEmpty_sweepSlot h hs cfg st.maxSlot now hunsealed] at hleft
        cases hleft
    · exact hreleased.mono fun x hx => List.mem_of_mem_filter hx

theorem timeoutLaw_iff {st : State} (h : Kept st.slots) (cfg : Config) (now : Instant) :
    TimeoutLaw cfg st now ↔ GapsExpireInOrder cfg st now :=
  ⟨fun law => law.gapsExpireInOrder h, fun horder => horder.timeoutLaw h⟩

end

/-- In every reachable state a sweep hands out all that is overdue exactly if no overdue entry
waits behind a younger gap. -/
theorem sweep_timely_iff (cfg : Config) (is : List Input) (now : Instant) :
    TimeoutLaw cfg ((machine cfg).run {} is).1 now ↔
      GapsExpireInOrder cfg ((machine cfg).run {} is).1 now :=
  timeoutLaw_iff (kept_run cfg is) cfg now

/-- Entry 5 has waited for `entry_timeout`, but entry 3, which came later, has not. -/
theorem overdue_behind_younger_gap :
    ¬∀ (cfg : Config) (is : List Input) (now : Instant),
      TimeoutLaw cfg ((machine cfg).run {} is).1 now := by
  intro h
  have hlaw := h defaultConfig
    [.arrival (sampleEntry 7 5 1 50) 0, .arrival (sampleEntry 7 3 1 30) 100_000_000] 150_000_000
  have horder := (timeoutLaw_iff (kept_run defaultConfig _) defaultConfig 150_000_000).mp hlaw
  revert horder
  decide +kernel

end SolanaBench.TickTrigger.PohSupervisor
