import SolanaBench.TickTrigger.PohConservation
import SolanaBench.TickTrigger.PohTransparency

/-! Order across slots. The supervisor orders the entries of one slot; here is when the
entries of all slots leave it in one sequence, ascending in slot and index. -/
namespace SolanaBench.TickTrigger.PohSupervisor

/-- `x` comes before index `i` of slot `k`. -/
def OrderedEntry.Precedes (x : OrderedEntry) (k : ℕ) (i : U32) : Prop :=
  x.slot < k ∨ x.slot = k ∧ x.entryIndex < i

instance (x : OrderedEntry) (k : ℕ) (i : U32) : Decidable (x.Precedes k i) :=
  inferInstanceAs (Decidable (_ ∨ _))

/-! ## When a call is in turn -/

/-- An open slot emits or buffers the entry. -/
def takesIn (cfg : Config) (s : PohSlot) (m : MergedEntry) : Bool :=
  !s.sealed && (decide (m.observation.entryIndex = s.nextExpectedIdx) ||
    decide (s.nextExpectedIdx < m.observation.entryIndex) &&
      decide (s.pending.size < cfg.maxPendingPerSlot))

/-- The first buffered entry has waited for `entry_timeout`: the next sweep gives up its gap. -/
def gapExpired (cfg : Config) (now : Instant) (s : PohSlot) : Bool :=
  (gapAge now s).any fun age => decide (cfg.entryTimeout ≤ age)

/-- So has every buffered entry with a gap before it. -/
def AllGapsExpired (cfg : Config) (now : Instant) (s : PohSlot) : Prop :=
  ∀ e ∈ s.pending.entries, (∀ f ∈ s.pending.entries, f.1 + 1 ≠ e.1) →
    cfg.entryTimeout ≤ now.saturatingDurationSince e.2.bufferedAt

/-- Something was emitted in this life of the slot, or is buffered. -/
def Occupied (s : PohSlot) : Prop := s.lastEntryHash ≠ none ∨ s.pending.entries ≠ []

/-- An arrival that is taken in comes after all that was emitted, and overtakes nothing
that is held back. -/
def ArrivesInTurn (cfg : Config) (slots : SortedMap ℕ PohSlot) (sent : List OrderedEvent)
    (m : MergedEntry) : Prop :=
  let s := (slots.get? m.observation.slot).getD {}
  takesIn cfg s m = true →
    (∀ x ∈ entriesIn sent, x.Precedes m.observation.slot m.observation.entryIndex) ∧
    (m.observation.entryIndex = s.nextExpectedIdx →
      ∀ e ∈ slots.entries, e.1 < m.observation.slot → e.2.pending.entries = [])

/-- A gap is given up only together with all gaps of the slots below, and what is sealed
has an entry. -/
def SweepsInTurn (cfg : Config) (slots : SortedMap ℕ PohSlot) (now : Instant)
    (seals : ℕ → Bool) : Prop :=
  (∀ e ∈ slots.entries, gapExpired cfg now e.2 = true →
    ∀ d ∈ slots.entries, d.1 < e.1 → AllGapsExpired cfg now d.2) ∧
  ∀ e ∈ slots.entries, e.2.sealed = false → seals e.1 = true → Occupied e.2

def InTurn (cfg : Config) (st : State) (sent : List OrderedEvent) : Input → Prop
  | .arrival m _ => ArrivesInTurn cfg st.slots sent m
  | .sweep now => SweepsInTurn cfg st.slots now (lagsBehind cfg st.maxSlot)

instance (cfg : Config) (now : Instant) (s : PohSlot) : Decidable (AllGapsExpired cfg now s) :=
  inferInstanceAs (Decidable (∀ e ∈ _, (∀ f ∈ _, _) → _))

instance (s : PohSlot) : Decidable (Occupied s) := inferInstanceAs (Decidable (_ ∨ _))

instance (cfg : Config) (slots : SortedMap ℕ PohSlot) (sent : List OrderedEvent)
    (m : MergedEntry) : Decidable (ArrivesInTurn cfg slots sent m) :=
  inferInstanceAs (Decidable (_ → (∀ x ∈ _, _) ∧ (_ → ∀ e ∈ _, _ → _)))

instance (cfg : Config) (slots : SortedMap ℕ PohSlot) (now : Instant) (seals : ℕ → Bool) :
    Decidable (SweepsInTurn cfg slots now seals) :=
  inferInstanceAs (Decidable ((∀ e ∈ _, _ → ∀ d ∈ _, _ → _) ∧ ∀ e ∈ _, _ → _ → _))

instance (cfg : Config) (st : State) (sent : List OrderedEvent) (i : Input) :
    Decidable (InTurn cfg st sent i) :=
  match i with
  | .arrival _ _ => inferInstanceAs (Decidable (ArrivesInTurn ..))
  | .sweep _ => inferInstanceAs (Decidable (SweepsInTurn ..))

/-! ## The log -/

/-- The slot a terminal event closes, with the hash it reports. -/
def OrderedEvent.closing? : OrderedEvent → Option (ℕ × Hash)
  | .slotComplete c => some (c.slot, c.lastEntryHash)
  | .slotIncomplete c => some (c.slot, c.lastEntryHash)
  | _ => none

/-- The hash of the last entry of slot `k`. -/
def lastHash (k : ℕ) (l : List OrderedEvent) : Option Hash :=
  (entriesIn (eventsOf k l)).getLast?.map fun e => e.observation.entryHash

/-- Entries ascend in slot and index, and a terminal event reports the last hash of its slot. -/
structure Sequence (l : List OrderedEvent) : Prop where
  ascending : (entriesIn l).Pairwise fun x y => x.Precedes y.slot y.entryIndex
  closings : EverySplit (fun pre x => ∀ w, x.closing? = some w → lastHash w.1 pre = some w.2) l

/-- What slot `k` still holds comes after all of `l`, and it remembers the last hash. -/
structure Follows (k : ℕ) (s : PohSlot) (l : List OrderedEvent) : Prop where
  ahead : ∀ e ∈ s.pending.entries, ∀ x ∈ entriesIn l, x.Precedes k e.1
  hash : ∀ h, s.lastEntryHash = some h → lastHash k l = some h

variable {k : ℕ} {l es : List OrderedEvent} {s : PohSlot}

@[simp] theorem slot_entry (e : OrderedEntry) : (OrderedEvent.entry e).slot = e.slot := rfl

theorem mem_entriesIn_eventsOf {e : OrderedEntry} :
    e ∈ entriesIn (eventsOf k l) ↔ e ∈ entriesIn l ∧ e.slot = k := by
  rw [mem_entriesIn, mem_entriesIn]
  exact List.mem_filter.trans (and_congr_right fun _ => decide_eq_true_iff)

theorem sequence_nil : Sequence [] := ⟨List.Pairwise.nil, EverySplit.nil⟩

theorem follows_new : Follows k {} l :=
  ⟨fun e he => absurd he List.not_mem_nil, fun h hh => by simp at hh⟩

theorem lastHash_snoc_entry (k : ℕ) (l : List OrderedEvent) (e : OrderedEntry) :
    lastHash k (l ++ [.entry e]) =
      if e.slot = k then some e.observation.entryHash else lastHash k l := by
  unfold lastHash
  rw [eventsOf_append]
  by_cases he : e.slot = k
  · have hown : eventsOf k [.entry e] = [.entry e] := eventsOf_eq_self (by simpa using he)
    rw [if_pos he, hown]
    simp
  · have hother : eventsOf k [.entry e] = [] := eventsOf_eq_nil he (by simp)
    rw [if_neg he, hother, List.append_nil]

theorem lastHash_append_of_entriesIn (h : entriesIn (eventsOf k es) = []) :
    lastHash k (l ++ es) = lastHash k l := by
  simp [lastHash, h]

theorem lastHash_snoc_of_entry?_none {x : OrderedEvent} (hx : x.entry? = none) :
    lastHash k (l ++ [x]) = lastHash k l := by
  refine lastHash_append_of_entriesIn ?_
  unfold eventsOf entriesIn
  by_cases hk : x.slot = k <;> simp [hk, hx]

theorem lastHash_append_of_slot {j : ℕ} (hne : j ≠ k) (h : ∀ e ∈ es, e.slot = j) :
    lastHash k (l ++ es) = lastHash k l := by
  refine lastHash_append_of_entriesIn ?_
  rw [eventsOf_eq_nil hne h]
  rfl

theorem entriesIn_eventsOf (k : ℕ) (l : List OrderedEvent) :
    entriesIn (eventsOf k l) = (entriesIn l).filter fun e => decide (e.slot = k) := by
  unfold entriesIn eventsOf
  rw [List.filterMap_filter, List.filter_filterMap]
  congr 1
  funext x
  cases x with
  | entry e => by_cases he : e.slot = k <;> simp [OrderedEvent.entry?, Option.filter, he]
  | missing m => simp [OrderedEvent.entry?]
  | slotComplete c => simp [OrderedEvent.entry?]
  | slotIncomplete c => simp [OrderedEvent.entry?]

theorem lastHash_congr {l' : List OrderedEvent} (h : entriesIn l = entriesIn l') (k : ℕ) :
    lastHash k l = lastHash k l' := by
  unfold lastHash
  rw [entriesIn_eventsOf, entriesIn_eventsOf, h]

/-- A log stays in sequence when events other than entries get lost. -/
theorem Sequence.thinned {l' : List OrderedEvent} (h : Sequence l) (hsub : l'.Sublist l)
    (heq : entriesIn l' = entriesIn l) : Sequence l' where
  ascending := by
    rw [heq]
    exact h.ascending
  closings pre x post hx w hw := by
    rw [hx] at hsub
    obtain ⟨l₁, l₂, rfl, hpre, htail⟩ := List.append_sublist_iff.mp hsub
    obtain ⟨r₁, r₂, rfl, hmem, hpost⟩ := List.cons_sublist_iff.mp htail
    obtain ⟨s, t, rfl⟩ := List.append_of_mem hmem
    have hpre' : pre.Sublist (l₁ ++ s) := hpre.trans (List.sublist_append_left l₁ s)
    have hpost' : post.Sublist (t ++ r₂) := hpost.trans (List.sublist_append_right t r₂)
    -- no entry is missing, so none is missing before `x`
    have hpreEntries : (entriesIn pre).Sublist (entriesIn (l₁ ++ s)) := hpre'.filterMap _
    have hpostEntries : (entriesIn post).Sublist (entriesIn (t ++ r₂)) := hpost'.filterMap _
    have hcount : ∀ a b : List OrderedEvent, (entriesIn (a ++ x :: b)).length =
        (entriesIn a).length + (entriesIn [x]).length + (entriesIn b).length := by
      intro a b
      rw [List.append_cons, entriesIn_append, entriesIn_append, List.length_append,
        List.length_append]
    have hlen := congrArg List.length heq
    have hassoc : l₁ ++ (s ++ x :: t ++ r₂) = l₁ ++ s ++ x :: (t ++ r₂) := by simp
    rw [hx, hassoc, hcount, hcount] at hlen
    have hentries : entriesIn pre = entriesIn (l₁ ++ s) := by
      have hle := hpreEntries.length_le
      have hle' := hpostEntries.length_le
      exact hpreEntries.eq_of_length (by omega)
    rw [lastHash_congr hentries]
    exact h.closings (l₁ ++ s) x (t ++ r₂) (by simp) w hw

/-- Once an entry of a later slot is out, no entry of slot `k` follows. -/
theorem Sequence.lastHash_settled (h : Sequence (l ++ es)) {x : OrderedEntry}
    (hx : x ∈ entriesIn l) (hk : k < x.slot) : lastHash k (l ++ es) = lastHash k l := by
  refine lastHash_append_of_entriesIn (List.eq_nil_iff_forall_not_mem.mpr fun y hy => ?_)
  obtain ⟨hmem, hslot⟩ := mem_entriesIn_eventsOf.mp hy
  have hasc := h.ascending
  rw [entriesIn_append] at hasc
  rcases (List.pairwise_append.mp hasc).2.2 x hx y hmem with hlt | ⟨heq, -⟩
  · omega
  · omega

/-- The last hash of a slot is that of its highest entry. -/
theorem Sequence.highest (h : Sequence l) {v : Hash} (hv : lastHash k l = some v) :
    ∃ e ∈ entriesIn l, e.slot = k ∧
      (∀ f ∈ entriesIn l, f.slot = k → f.entryIndex ≤ e.entryIndex) ∧
      v = e.observation.entryHash := by
  obtain ⟨e, he, rfl⟩ := Option.map_eq_some_iff.mp hv
  obtain ⟨init, hinit⟩ := List.getLast?_eq_some_iff.mp he
  have hmem : e ∈ entriesIn l ∧ e.slot = k := mem_entriesIn_eventsOf.mp (by simp [hinit])
  refine ⟨e, hmem.1, hmem.2, fun f hf hfk => ?_, rfl⟩
  have hasc : (entriesIn (eventsOf k l)).Pairwise fun x y => x.Precedes y.slot y.entryIndex :=
    h.ascending.sublist (List.filter_sublist.filterMap _)
  have hfl := mem_entriesIn_eventsOf.mpr ⟨hf, hfk⟩
  rw [hinit] at hasc hfl
  rcases List.mem_append.mp hfl with hfi | hfe
  · rcases (List.pairwise_append.mp hasc).2.2 f hfi e (List.mem_singleton_self e) with hlt | ⟨-, hlt⟩
    · omega
    · exact hlt.le
  · rw [List.mem_singleton.mp hfe]

/-! ## One slot -/

theorem Sequence.entry (h : Sequence l) {e : OrderedEntry}
    (he : ∀ x ∈ entriesIn l, x.Precedes e.slot e.entryIndex) : Sequence (l ++ [.entry e]) where
  ascending := by
    rw [entriesIn_append, entriesIn_entry]
    refine List.pairwise_append.mpr ⟨h.ascending, List.pairwise_singleton _ _, fun x hx y hy => ?_⟩
    rw [List.mem_singleton.mp hy]
    exact he x hx
  closings := h.closings.snoc fun w hw => by simp [OrderedEvent.closing?] at hw

theorem Sequence.missing (h : Sequence l) (m : OrderedMissing) : Sequence (l ++ [.missing m]) where
  ascending := by simpa using h.ascending
  closings := h.closings.snoc fun w hw => by simp [OrderedEvent.closing?] at hw

variable {cfg : Config} {now : Instant}

/-- Emitting an entry that comes after everything so far, and before what stays buffered. -/
theorem Follows.emit (hl : Sequence l) (hf : Follows k s l) {m : MergedEntry}
    {p : SortedMap U32 PendingEntry} (hm : m.observation.slot = k)
    (hafter : ∀ x ∈ entriesIn l, x.Precedes k m.observation.entryIndex)
    (hp : ∀ e ∈ p.entries, e ∈ s.pending.entries ∧ m.observation.entryIndex < e.1)
    (now : Instant) (wasReordered : Bool) (waitUs : ℕ) :
    Sequence (l ++ [entryEventOf s m now wasReordered waitUs]) ∧
      Follows k (emitted s p m now) (l ++ [entryEventOf s m now wasReordered waitUs]) := by
  refine ⟨hl.entry (by simpa [entryEvent, hm] using hafter), fun e he x hx => ?_, fun h hh => ?_⟩
  · rw [entriesIn_append] at hx
    rcases List.mem_append.mp hx with hx | hx
    · exact hf.ahead e (hp e he).1 x hx
    · rw [List.mem_singleton.mp hx]
      exact Or.inr ⟨hm, (hp e he).2⟩
  · rw [entryEventOf, lastHash_snoc_entry]
    exact (if_pos hm).trans hh

theorem Follows.skip (hf : Follows k s l) (m : OrderedMissing) :
    Follows k (skipped s) (l ++ [.missing m]) where
  ahead := by simpa using hf.ahead
  hash h hh := by
    rw [lastHash_snoc_of_entry?_none rfl]
    exact hf.hash h hh

/-- One iteration of a draining loop keeps the sequence. -/
theorem DrainIteration.sequence {r : PohSlot × List Output} (h : DrainIteration cfg k now s r)
    (ho : Opened (Own (fun _ => True) k) s) (hl : Sequence l) (hf : Follows k s l) :
    Sequence (l ++ Effect.sent r.2) ∧ Follows k r.1 (l ++ Effect.sent r.2) := by
  obtain ⟨e, he, ⟨heq, rfl⟩ | ⟨-, rfl⟩⟩ := h
  · have hmem := SortedMap.firstKeyValue_mem he
    obtain ⟨⟨hslot, -⟩, hidx⟩ := ho.buffered e hmem
    refine hf.emit hl hslot ?_ (fun x hx => ⟨SortedMap.mem_popFirst hx, ?_⟩) now true _
    · rw [hidx]
      exact hf.ahead e hmem
    · rw [hidx]
      exact SortedMap.firstKeyValue_lt he x hx
  · exact ⟨hl.missing _, hf.skip _⟩

theorem DrainIteration.occupied {r : PohSlot × List Output} (h : DrainIteration cfg k now s r) :
    Occupied r.1 := by
  obtain ⟨e, he, ⟨-, rfl⟩ | ⟨-, rfl⟩⟩ := h
  · exact Or.inl (Option.some_ne_none _)
  · exact Or.inr (List.ne_nil_of_mem (SortedMap.firstKeyValue_mem he))

/-- So does a whole loop. -/
theorem exec_sequence (cfg : Config) (now : Instant) {L : WhileLoop PohSlot Output}
    (hL : ∀ s r, L.body s = some r → DrainIteration cfg k now s r)
    (ho : Opened (Own (fun _ => True) k) s) (hl : Sequence l) (hf : Follows k s l) :
    Sequence (l ++ Effect.sent (L.exec s).2) ∧
      Follows k (L.exec s).1 (l ++ Effect.sent (L.exec s).2) := by
  have hrun := L.exec_rule (s := s) (fun t os => Opened (Own (fun _ => True) k) t ∧
      Sequence (l ++ Effect.sent os) ∧ Follows k t (l ++ Effect.sent os))
    ⟨ho, by simpa using hl, by simpa using hf⟩ (by
      intro t os u es ⟨ht, hlt, hft⟩ hb
      have hit := hL t (u, es) hb
      rw [Effect.sent_append, ← List.append_assoc]
      exact ⟨(hit.opened ht).1, hit.sequence ht hlt hft⟩)
  exact hrun.2

theorem exec_occupied (cfg : Config) (k : ℕ) (now : Instant) {L : WhileLoop PohSlot Output}
    (hL : ∀ s r, L.body s = some r → DrainIteration cfg k now s r) (h : Occupied s) :
    Occupied (L.exec s).1 :=
  L.exec_rule (fun t _ => Occupied t) h fun t _ u es _ hb => (hL t (u, es) hb).occupied

theorem terminalEvent_closing (s : PohSlot) (k : ℕ) :
    (terminalEvent s k).closing? = some (k, s.lastEntryHash.getD 0) := by
  unfold terminalEvent
  split_ifs <;> rfl

theorem entry?_terminalEvent (s : PohSlot) (k : ℕ) :
    OrderedEvent.entry? (terminalEvent s k) = none := by
  unfold terminalEvent
  split_ifs <;> rfl

/-- Closing a drained slot that had an entry. -/
theorem Follows.close (hl : Sequence l) (hf : Follows k s l) (hp : s.pending.entries = [])
    (hocc : Occupied s) :
    Sequence (l ++ [terminalEvent s k]) ∧
      Follows k { s with sealed := true } (l ++ [terminalEvent s k]) := by
  obtain ⟨h, hh⟩ : ∃ h, s.lastEntryHash = some h :=
    Option.ne_none_iff_exists'.mp (hocc.resolve_right (not_not.mpr hp))
  have hlast := hf.hash h hh
  have hnone : entriesIn [terminalEvent s k] = [] := by simp [entriesIn, entry?_terminalEvent]
  refine ⟨⟨by simpa [hnone] using hl.ascending, hl.closings.snoc ?_⟩, ?_, ?_⟩
  · intro w hw
    rw [terminalEvent_closing, hh] at hw
    rw [← Option.some.inj hw]
    exact hlast
  · intro e he
    simp [hp] at he
  · intro h' hh'
    rw [lastHash_snoc_of_entry?_none (entry?_terminalEvent s k)]
    exact hf.hash h' hh'

theorem sealSlot_sequence (hs : Resting (Own (fun _ => True) k) s) (hu : s.sealed = false)
    (hocc : Occupied s) (hl : Sequence l) (hf : Follows k s l) :
    Sequence (l ++ Effect.sent (sealSlot cfg s k now).2) ∧
      Follows k (sealSlot cfg s k now).1 (l ++ Effect.sent (sealSlot cfg s k now).2) := by
  rw [sent_sealSlot]
  unfold sealSlot
  cases hlast : s.pending.lastKeyValue with
  | none =>
    have hclose := hf.close hl (SortedMap.lastKeyValue_eq_none.mp hlast) hocc
    exact hclose
  | some e =>
    have ho := hs.opened hu
    have hnil := pending_nil_flushPending cfg k now (SortedMap.le_lastKeyValue hlast) ho
    obtain ⟨hl', hf'⟩ := exec_sequence cfg now (L := flushPending cfg k now e.1)
      (fun _ _ => flushPending_iteration) ho hl hf
    have hocc' := exec_occupied cfg k now (L := flushPending cfg k now e.1)
      (fun _ _ => flushPending_iteration) hocc
    have hclose := hf'.close hl' hnil hocc'
    rw [List.append_assoc] at hclose
    exact hclose

/-- An arrival that is taken in after everything so far. -/
theorem processSlot_sequence (cfg : Config) (now : Instant) (hs : Resting (Own (fun _ => True) k) s) {m : MergedEntry}
    (hm : m.observation.slot = k)
    (hafter : takesIn cfg s m = true →
      ∀ x ∈ entriesIn l, x.Precedes k m.observation.entryIndex)
    (hl : Sequence l) (hf : Follows k s l) :
    Sequence (l ++ Effect.sent (processSlot cfg s m now).2) ∧
      Follows k (processSlot cfg s m now).1 (l ++ Effect.sent (processSlot cfg s m now).2) := by
  have hquiet : ∀ t : PohSlot, t.pending = s.pending → t.lastEntryHash = s.lastEntryHash →
      Sequence (l ++ []) ∧ Follows k t (l ++ []) := by
    intro t hp hh
    rw [List.append_nil]
    exact ⟨hl, by rw [hp]; exact hf.ahead, by rw [hh]; exact hf.hash⟩
  refine processSlot_rule cfg now (C := fun r => Sequence (l ++ Effect.sent r.2) ∧
    Follows k r.1 (l ++ Effect.sent r.2)) (fun _ => hquiet s rfl rfl)
    (fun _ _ => hquiet _ rfl rfl) ?_ ?_ (fun _ _ _ => hquiet _ rfl rfl)
  · intro hu heq
    have hnew := hafter (by simp [takesIn, hu, heq])
    have hm' : Move (Own (fun _ => True) k) (fun _ _ => True) k s
        [entryEventOf s m now false 0] (emitted s s.pending m now) :=
      Move.emit s s.pending m now false 0 hu ⟨hm, trivial⟩ heq
        (fun e he => ⟨he, hs.beyondNext e he⟩) (Or.inl trivial)
    have ho : Opened (Own (fun _ => True) k) (emitted s s.pending m now) :=
      ⟨hu, hm'.buffered hs.buffered, hm'.atLeastNext hs.beyondNext.atLeastNext⟩
    have hbeyond : ∀ e ∈ s.pending.entries, e ∈ s.pending.entries ∧ m.observation.entryIndex < e.1 :=
      fun e he => ⟨he, heq ▸ hs.beyondNext e he⟩
    obtain ⟨hl', hf'⟩ := hf.emit hl hm hnew hbeyond now false 0
    have hdrain := exec_sequence cfg now (L := drainConsecutivePending now)
      (fun _ _ => drainConsecutivePending_iteration) ho hl' hf'
    rw [List.append_assoc] at hdrain
    exact hdrain
  · intro hu hgt hroom
    have hnew := hafter (by simp [takesIn, hu, hgt, hroom])
    refine ⟨by simpa using hl, fun e he x hx => ?_, fun h hh => ?_⟩
    · have hx : x ∈ entriesIn l := by simpa using hx
      rcases (SortedMap.mem_insert _).mp he with rfl | ⟨he, -⟩
      · exact hnew x hx
      · exact hf.ahead e he x hx
    · have hhash := hf.hash h hh
      simpa using hhash

/-- Only an arrival at the expected index makes its slot emit. -/
theorem sent_processSlot_of_ne {m : MergedEntry}
    (h : ¬(s.sealed = false ∧ m.observation.entryIndex = s.nextExpectedIdx)) :
    Effect.sent (processSlot cfg s m now).2 = [] :=
  processSlot_rule cfg now (C := fun r => Effect.sent r.2 = []) (fun _ => rfl) (fun _ _ => rfl)
    (fun hu heq => absurd ⟨hu, heq⟩ h) (fun _ _ _ => rfl) (fun _ _ _ => rfl)

/-! ## Giving up gaps -/

/-- Phase A sends nothing from a slot whose first gap has not expired. -/
theorem gapExpired_of_sent (hs : Resting (Own (fun _ => True) k) s)
    (h : Effect.sent (ifUnsealed (fun s => (sweepGaps cfg k now).exec s) s).2 ≠ []) :
    gapExpired cfg now s = true := by
  by_contra hno
  have hyoung : ∀ age ∈ gapAge now s, age < cfg.entryTimeout := by
    intro age hage
    by_contra hle
    exact hno ((Option.any_eq_true _ _).mpr ⟨age, hage, by simpa using hle⟩)
  rw [sweepGaps_of_young hs hyoung] at h
  exact h rfl

theorem lt_add_one_of_lt {n m : U32} (h : n < m) : n < n + 1 := by
  have hm := m.isLt
  have hlt := Fin.lt_def.mp h
  have hval := val_add_one_of_lt (n := n) (by omega)
  rw [Fin.lt_def, hval]
  omega

/-- What has left the buffer of `s` by the time of `t` lies below the expected index. -/
def Passed (s t : PohSlot) : Prop :=
  t.pending.entries = [] ∨ ∀ f ∈ s.pending.entries, f ∈ t.pending.entries ∨ f.1 < t.nextExpectedIdx

theorem DrainIteration.passed {t : PohSlot} {r : PohSlot × List Output}
    (h : DrainIteration cfg k now t r) (ht : AtLeastNext t) (hp : Passed s t) : Passed s r.1 := by
  obtain ⟨e, he, ⟨heq, rfl⟩ | ⟨hne, rfl⟩⟩ := h
  · have hpassed := hp.resolve_left (List.ne_nil_of_mem (SortedMap.firstKeyValue_mem he))
    by_cases hlast : t.pending.popFirst.entries = []
    · exact Or.inl hlast
    · obtain ⟨g, hg⟩ := List.exists_mem_of_ne_nil _ hlast
      have hstep : t.nextExpectedIdx < t.nextExpectedIdx + 1 :=
        lt_add_one_of_lt (heq ▸ SortedMap.firstKeyValue_lt he g hg)
      refine Or.inr fun f hf => ?_
      rcases hpassed f hf with hf | hf
      · rw [SortedMap.entries_of_firstKeyValue he] at hf
        rcases List.mem_cons.mp hf with rfl | hf
        · exact Or.inr (heq ▸ hstep)
        · exact Or.inl hf
      · exact Or.inr (hf.trans hstep)
  · have hmem := SortedMap.firstKeyValue_mem he
    have hpassed := hp.resolve_left (List.ne_nil_of_mem hmem)
    have hstep : t.nextExpectedIdx < t.nextExpectedIdx + 1 :=
      lt_add_one_of_lt (beyondNext_of_first_ne ht he hne e hmem)
    exact Or.inr fun f hf => (hpassed f hf).imp id fun hf => hf.trans hstep

/-- Phase A leaves an entry only behind a gap that has not expired. -/
theorem young_of_mem_sweepGaps (hs : Resting (Own (fun _ => True) k) s) (hu : s.sealed = false)
    {p : U32 × PendingEntry} (hp : p ∈ ((sweepGaps cfg k now).exec s).1.pending.entries) :
    p ∈ s.pending.entries ∧ ∃ d ∈ s.pending.entries, d.1 ≤ p.1 ∧
      (∀ f ∈ s.pending.entries, f.1 + 1 ≠ d.1) ∧
        ¬cfg.entryTimeout ≤ now.saturatingDurationSince d.2.bufferedAt := by
  have hrun := (sweepGaps cfg k now).exec_rule (s := s) (fun t _ =>
    Opened (Own (fun _ => True) k) t ∧ (∀ e ∈ t.pending.entries, e ∈ s.pending.entries) ∧
      Passed s t)
    ⟨hs.opened hu, fun e he => he, Or.inr fun f hf => Or.inl hf⟩ (by
      intro t _ u es ⟨ht, hsub, hp⟩ hb
      have hit : DrainIteration cfg k now t (u, es) := sweepGaps_iteration hb
      obtain ⟨hu, hsub'⟩ := hit.opened ht
      exact ⟨hu, fun e he => hsub e (hsub' e he), hit.passed ht.atLeastNext hp⟩)
  have hexit := (sweepGaps cfg k now).exec_exits s
  generalize ((sweepGaps cfg k now).exec s).1 = t at hrun hexit hp
  obtain ⟨ht, hsub, hpassed⟩ := hrun
  simp only [sweepGaps] at hexit
  split at hexit
  · next e he =>
    split_ifs at hexit with hne hage
    have hmem := SortedMap.firstKeyValue_mem he
    have hgap : t.nextExpectedIdx < e.1 := beyondNext_of_first_ne ht.atLeastNext he hne e hmem
    refine ⟨hsub p hp, e, hsub e hmem, SortedMap.firstKeyValue_le he p hp, ?_, hage⟩
    -- a predecessor in the buffer of `s` would have been emitted, and made the first one expected
    intro f hf hfe
    have hval : (f.1.val + 1) % 2 ^ 32 = e.1.val := by
      rw [← hfe]
      rfl
    have hlt := f.1.isLt
    rw [Fin.lt_def] at hgap
    rcases hpassed.resolve_left (List.ne_nil_of_mem hmem) f hf with hft | hft
    · have hle := Fin.le_def.mp (SortedMap.firstKeyValue_le he f hft)
      omega
    · have hbelow := Fin.lt_def.mp hft
      omega
  · next hn =>
    rw [SortedMap.firstKeyValue_eq_none.mp hn] at hp
    cases hp

/-- Phase A empties the buffer once all gaps have expired. -/
theorem pending_nil_sweepGaps (hs : Resting (Own (fun _ => True) k) s) (hu : s.sealed = false)
    (h : AllGapsExpired cfg now s) : ((sweepGaps cfg k now).exec s).1.pending.entries = [] := by
  refine List.eq_nil_iff_forall_not_mem.mpr fun p hp => ?_
  obtain ⟨-, d, hd, -, hgap, hyoung⟩ := young_of_mem_sweepGaps hs hu hp
  exact hyoung (h d hd hgap)

/-! ## The worker -/

/-- The slots between two calls, with the log of everything sent. -/
structure Sequenced (slots : SortedMap ℕ PohSlot) (l : List OrderedEvent) : Prop where
  kept : Kept slots
  log : Sequence l
  follows : ∀ k s, slots.get? k = some s → Follows k s l

theorem sequenced_init : Sequenced ∅ [] :=
  ⟨kept_empty, sequence_nil, fun k s hs => by simp at hs⟩

/-- What a visit of slot `k` in state `s` has to do. -/
structure VisitsInOrder (f : ℕ → PohSlot → PohSlot × List Output) (k : ℕ) (s : PohSlot) :
    Prop where
  resting : Resting (Own (fun _ => True) k) (f k s).1
  sealedEmpty : SealedEmpty (f k s).1
  own : ∀ e ∈ Effect.sent (f k s).2, e.slot = k
  sequence : ∀ l, Sequence l → Follows k s l →
    Sequence (l ++ Effect.sent (f k s).2) ∧ Follows k (f k s).1 (l ++ Effect.sent (f k s).2)

/-- A visit that sends nothing, or that finds the buffers of the slots below empty. -/
theorem Sequenced.visit {slots : SortedMap ℕ PohSlot} (h : Sequenced slots l)
    (hs : Resting (Own (fun _ => True) k) s) (hempty : SealedEmpty s)
    (hown : ∀ e ∈ es, e.slot = k) (hseq : Sequence (l ++ es) ∧ Follows k s (l ++ es))
    (hclear : es ≠ [] → ∀ j u, j < k → slots.get? j = some u → u.pending.entries = []) :
    Sequenced (slots.insert k s) (l ++ es) := by
  refine ⟨⟨h.kept.resting.insert hs, fun j u hu => ?_⟩, hseq.1, fun j u hu => ?_⟩
  · rw [SortedMap.get?_insert] at hu
    split_ifs at hu with hjk
    · cases hu
      exact hempty
    · exact h.kept.sealedEmpty j u hu
  · rw [SortedMap.get?_insert] at hu
    split_ifs at hu with hjk
    · cases hu
      rw [hjk]
      exact hseq.2
    · have hj := h.follows j u hu
      refine ⟨fun e he x hx => ?_, fun v hv => ?_⟩
      · rw [entriesIn_append] at hx
        rcases List.mem_append.mp hx with hx | hx
        · exact hj.ahead e he x hx
        · have hxk : x.slot = k := hown _ (mem_entriesIn.mp hx)
          rcases lt_or_gt_of_ne hjk with hlt | hgt
          · have hnil := hclear (List.ne_nil_of_mem (mem_entriesIn.mp hx)) j u hlt hu
            simp [hnil] at he
          · exact Or.inl (hxk ▸ hgt)
      · rw [lastHash_append_of_slot (Ne.symm hjk) hown]
        exact hj.hash v hv

/-- Visiting slots in ascending order. A slot that sends finds every lower buffer empty,
or its slot is visited before and emptied. -/
theorem Sequenced.forEach {f : ℕ → PohSlot → PohSlot × List Output} {ks : List ℕ}
    (hks : ks.Pairwise (· < ·)) {slots : SortedMap ℕ PohSlot} (h : Sequenced slots l)
    (hf : ∀ k ∈ ks, ∀ s, slots.get? k = some s → VisitsInOrder f k s)
    (hclear : ∀ k ∈ ks, ∀ s, slots.get? k = some s → Effect.sent (f k s).2 ≠ [] →
      ∀ j u, j < k → slots.get? j = some u →
        (j ∉ ks ∧ u.pending.entries = []) ∨ (j ∈ ks ∧ (f j u).1.pending.entries = [])) :
    Sequenced (SortedMap.forEach f ks slots).1
      (l ++ Effect.sent (SortedMap.forEach f ks slots).2) := by
  induction ks generalizing slots l with
  | nil => simpa [SortedMap.forEach] using h
  | cons k ks ih =>
    obtain ⟨hk, hks⟩ := List.pairwise_cons.mp hks
    unfold SortedMap.forEach
    cases hs : slots.get? k with
    | none =>
      refine ih hks h (fun i hi => hf i (List.mem_cons_of_mem k hi)) fun i hi s his hsent j u hj hu => ?_
      have hjk : j ≠ k := fun hjk => by simp [hjk, hs] at hu
      simpa [hjk] using hclear i (List.mem_cons_of_mem k hi) s his hsent j u hj hu
    | some s =>
      have hv := hf k List.mem_cons_self s hs
      have hseq := hv.sequence l h.log (h.follows k s hs)
      have hnext := h.visit hv.resting hv.sealedEmpty hv.own hseq fun hsent j u hj hu => by
        rcases hclear k List.mem_cons_self s hs hsent j u hj hu with ⟨-, hnil⟩ | ⟨hmem, -⟩
        · exact hnil
        · rcases List.mem_cons.mp hmem with rfl | hmem
          · exact absurd hj (lt_irrefl _)
          · exact absurd (hk j hmem) (not_lt.mpr hj.le)
      have hget : ∀ i ∈ ks, (slots.insert k (f k s).1).get? i = slots.get? i := fun i hi =>
        SortedMap.get?_insert_of_ne (hk i hi).ne' _
      have hrest := ih hks hnext
        (fun i hi t ht => hf i (List.mem_cons_of_mem k hi) t (by rw [← hget i hi]; exact ht))
        (by
          intro i hi t ht hsent j u hj hu
          rw [hget i hi] at ht
          have hbelow := hclear i (List.mem_cons_of_mem k hi) t ht hsent j
          by_cases hjk : j = k
          · rw [hjk, SortedMap.get?_insert_self] at hu
            have hvisited := hbelow s hj (hjk ▸ hs)
            have hnotin : j ∉ ks := fun hmem => absurd (hk j hmem) (by simp [hjk])
            left
            refine ⟨hnotin, ?_⟩
            rw [← Option.some.inj hu]
            simpa [hjk] using hvisited
          · rw [SortedMap.get?_insert_of_ne hjk] at hu
            simpa [hjk] using hbelow u hj hu)
      rw [List.append_assoc, ← Effect.sent_append] at hrest
      exact hrest

theorem ifUnsealed_sequence {f : PohSlot → PohSlot × List Output} (hl : Sequence l)
    (hf : Follows k s l)
    (hopen : s.sealed = false →
      Sequence (l ++ Effect.sent (f s).2) ∧ Follows k (f s).1 (l ++ Effect.sent (f s).2)) :
    Sequence (l ++ Effect.sent (ifUnsealed f s).2) ∧
      Follows k (ifUnsealed f s).1 (l ++ Effect.sent (ifUnsealed f s).2) := by
  have hsealed : Sequence (l ++ Effect.sent ([] : List Output)) ∧
      Follows k s (l ++ Effect.sent ([] : List Output)) := by simpa using ⟨hl, hf⟩
  exact ifUnsealed_rule (C := fun r => Sequence (l ++ Effect.sent r.2) ∧
    Follows k r.1 (l ++ Effect.sent r.2)) (fun _ => hsealed) hopen

theorem visitsInOrder_sweepGaps (cfg : Config) (now : Instant)
    (hs : Resting (Own (fun _ => True) k) s) (he : SealedEmpty s) :
    VisitsInOrder (fun k => ifUnsealed fun s => (sweepGaps cfg k now).exec s) k s where
  resting := (ownVisit_sweepGaps cfg now k s hs).1
  sealedEmpty := by
    obtain ⟨htr, -, -⟩ := sweepGaps_trace (Q := fun _ _ => True) (k := k) cfg now hs
    exact trace_sealedEmpty htr he
  own := (ownVisit_sweepGaps cfg now k s hs).2
  sequence _ hl hf := ifUnsealed_sequence hl hf fun hu =>
    exec_sequence cfg now (fun _ _ => sweepGaps_iteration) (hs.opened hu) hl hf

theorem visitsInOrder_sealSlot (cfg : Config) (now : Instant)
    (hs : Resting (Own (fun _ => True) k) s) (he : SealedEmpty s)
    (hocc : s.sealed = false → Occupied s) :
    VisitsInOrder (fun k => ifUnsealed fun s => sealSlot cfg s k now) k s where
  resting := (ownVisit_sealSlot cfg now k s hs).1
  sealedEmpty := by
    obtain ⟨htr, -, -⟩ := sealSlot_ifUnsealed_trace (Q := fun _ _ => True) (k := k) cfg now hs
    exact trace_sealedEmpty htr he
  own := (ownVisit_sealSlot cfg now k s hs).2
  sequence _ hl hf := ifUnsealed_sequence hl hf fun hu => sealSlot_sequence hs hu (hocc hu) hl hf

theorem occupied_sweepGaps (cfg : Config) (now : Instant) (h : Occupied s) :
    Occupied (ifUnsealed (fun s => (sweepGaps cfg k now).exec s) s).1 :=
  ifUnsealed_rule (C := fun r => Occupied r.1) (fun _ => h) fun _ =>
    exec_occupied cfg k now (fun _ _ => sweepGaps_iteration) h

/-- Sealing leaves nothing buffered. -/
theorem pending_nil_sealSlot (cfg : Config) (now : Instant)
    (hs : Resting (Own (fun _ => True) k) s) (he : SealedEmpty s) :
    (ifUnsealed (fun s => sealSlot cfg s k now) s).1.pending.entries = [] := by
  obtain ⟨htr, -, hsealed⟩ := sealSlot_ifUnsealed_trace (Q := fun _ _ => True) (k := k) cfg now hs
  exact trace_sealedEmpty htr he hsealed

section Sweep

variable {st : State} {seals : ℕ → Bool}

/-- Phase A gives up gaps in ascending order of the slots. -/
theorem Sequenced.sweepGaps (h : Sequenced st.slots l)
    (hturn : SweepsInTurn cfg st.slots now seals) :
    let a := SortedMap.forEach
      (fun k => ifUnsealed fun s => (PohSupervisor.sweepGaps cfg k now).exec s) st.slots.keys st.slots
    Sequenced a.1 (l ++ Effect.sent a.2) := by
  intro a
  refine h.forEach SortedMap.keys_sorted (fun k _ s hs => visitsInOrder_sweepGaps cfg now
    (h.kept.resting k s hs) (h.kept.sealedEmpty k s hs)) fun k _ s hs hsent j u hj hu => Or.inr
      ⟨SortedMap.mem_keys_iff.mpr ⟨u, hu⟩, ?_⟩
  have hexpired := gapExpired_of_sent (h.kept.resting k s hs) hsent
  have hall := hturn.1 _ (SortedMap.get?_eq_some_iff.mp hs) hexpired _
    (SortedMap.get?_eq_some_iff.mp hu) hj
  exact ifUnsealed_rule (C := fun r => r.1.pending.entries = []) (h.kept.sealedEmpty j u hu)
    fun hopen => pending_nil_sweepGaps (h.kept.resting j u hu) hopen hall

/-- Flushing slots in ascending order; `ks` leaves out no slot below that is still open. -/
theorem Sequenced.sealSlots {slots : SortedMap ℕ PohSlot} (h : Sequenced slots l) (cfg : Config)
    (now : Instant) {ks : List ℕ}
    (hks : ks.Pairwise (· < ·))
    (hocc : ∀ k ∈ ks, ∀ s, slots.get? k = some s → s.sealed = false → Occupied s)
    (hall : ∀ k ∈ ks, ∀ j u, j < k → slots.get? j = some u → u.sealed = false → j ∈ ks) :
    let r := SortedMap.forEach (fun k => ifUnsealed fun s => sealSlot cfg s k now) ks slots
    Sequenced r.1 (l ++ Effect.sent r.2) := by
  intro r
  refine h.forEach hks (fun k hk s hs => visitsInOrder_sealSlot cfg now (h.kept.resting k s hs)
    (h.kept.sealedEmpty k s hs) (hocc k hk s hs)) fun k hk s hs _ j u hj hu => ?_
  by_cases hmem : j ∈ ks
  · exact Or.inr ⟨hmem, pending_nil_sealSlot cfg now (h.kept.resting j u hu)
      (h.kept.sealedEmpty j u hu)⟩
  · refine Or.inl ⟨hmem, h.kept.sealedEmpty j u hu ?_⟩
    by_contra hopen
    exact hmem (hall k hk j u hj hu (by simpa using hopen))

theorem Sequenced.retain {slots : SortedMap ℕ PohSlot} (h : Sequenced slots l)
    (keep : ℕ → PohSlot → Bool) : Sequenced (slots.retain keep) l := by
  have hold : ∀ k s, (slots.retain keep).get? k = some s → slots.get? k = some s := by
    intro k s hs
    rw [SortedMap.get?_retain] at hs
    exact (Option.filter_eq_some_iff.mp hs).1
  exact ⟨⟨fun k s hs => h.kept.resting k s (hold k s hs),
    fun k s hs => h.kept.sealedEmpty k s (hold k s hs)⟩, h.log,
    fun k s hs => h.follows k s (hold k s hs)⟩

theorem Sequenced.sweep (h : Sequenced st.slots l) (hturn : SweepsInTurn cfg st.slots now seals)
    (hseals : ∀ k, lagsBehind cfg st.maxSlot k = true → seals k = true) :
    Sequenced (sweep cfg st now).1.slots (l ++ Effect.sent (sweep cfg st now).2) := by
  have ha := h.sweepGaps hturn
  set a := SortedMap.forEach
    (fun k => ifUnsealed fun s => (PohSupervisor.sweepGaps cfg k now).exec s) st.slots.keys st.slots
    with hadef
  have hsorted : (toSeal cfg st.maxSlot a.1).Pairwise (· < ·) :=
    SortedMap.keys_sorted.sublist (List.filter_sublist.map Prod.fst)
  have hb := ha.sealSlots cfg now hsorted
    (by
      intro k hk t ht hopen
      have hlag := ((mem_toSeal ht).mp hk).1
      rw [hadef, get?_visit_keys] at ht
      obtain ⟨s, hs, rfl⟩ := Option.map_eq_some_iff.mp ht
      obtain ⟨-, -, hsealed⟩ := sweepGaps_trace (Q := fun _ _ => True) (k := k) cfg now
        (h.kept.resting k s hs)
      exact occupied_sweepGaps cfg now (hturn.2 _ (SortedMap.get?_eq_some_iff.mp hs)
        (hsealed ▸ hopen) (hseals k hlag)))
    (by
      intro k hk j u hj hu hopen
      obtain ⟨t, ht⟩ := SortedMap.mem_keys_iff.mp (List.Sublist.subset
        (List.filter_sublist.map Prod.fst) hk)
      have hlag := ((mem_toSeal ht).mp hk).1
      refine (mem_toSeal hu).mpr ⟨?_, hopen⟩
      simp only [lagsBehind, decide_eq_true_eq] at hlag ⊢
      omega)
  have hc := hb.retain fun s slot => decide (s > dropCutoff cfg st.maxSlot) || !slot.sealed
  rw [List.append_assoc, ← Effect.sent_append] at hc
  exact hc

theorem Sequenced.shutdown (h : Sequenced st.slots l)
    (hturn : SweepsInTurn cfg st.slots now fun _ => true) :
    Sequenced (shutdown cfg st now).1.slots (l ++ Effect.sent (shutdown cfg st now).2) := by
  have hsweep := h.sweep hturn fun _ _ => rfl
  have hseal := hsweep.sealSlots cfg now SortedMap.keys_sorted
    (by
      intro k _ t ht hopen
      rw [get?_sweep] at ht
      obtain ⟨s, hs, rfl⟩ := Option.map_eq_some_iff.mp (Option.filter_eq_some_iff.mp ht).1
      obtain ⟨-, -, hsealed⟩ := sweepSlot_trace (Q := fun _ _ => True) cfg st.maxSlot now
        (h.kept.resting k s hs)
      rw [hopen, eq_comm, Bool.or_eq_false_iff] at hsealed
      have hocc := hturn.2 _ (SortedMap.get?_eq_some_iff.mp hs) hsealed.1 rfl
      have hkeep := occupied_sweepGaps (k := k) cfg now hocc
      simpa [sweepSlot, hsealed.2] using hkeep)
    (fun k _ j u _ hu _ => SortedMap.mem_keys_iff.mpr ⟨u, hu⟩)
  simpa [PohSupervisor.shutdown, List.append_assoc] using hseal

theorem Sequenced.process (h : Sequenced st.slots l) {m : MergedEntry}
    (hturn : ArrivesInTurn cfg st.slots l m) :
    Sequenced (process cfg st m now).1.slots (l ++ Effect.sent (process cfg st m now).2) := by
  set k := m.observation.slot with hk
  set s := (st.slots.get? k).getD {} with hsdef
  obtain ⟨hrest, hempty⟩ := h.kept.getD k
  have hfollows : Follows k s l := by
    cases hs : st.slots.get? k with
    | none => simpa [hsdef, hs] using follows_new
    | some t => simpa [hsdef, hs] using h.follows k t hs
  obtain ⟨htr, hr, -⟩ := processSlot_trace (Q := fun _ _ => True) (k := k) cfg now
    (m := m) hrest ⟨rfl, trivial⟩ fun _ => trivial
  have hseq := processSlot_sequence cfg now hrest rfl
    (fun htakes => (hturn htakes).1) h.log hfollows
  refine h.visit hr (trace_sealedEmpty htr hempty) (trace_slot htr) hseq fun hsent j u hj hu => ?_
  have hnext : s.sealed = false ∧ m.observation.entryIndex = s.nextExpectedIdx := by
    by_contra hno
    exact hsent (sent_processSlot_of_ne hno)
  have htakes : takesIn cfg s m = true := by simp [takesIn, hnext]
  exact (hturn htakes).2 hnext.2 _ (SortedMap.get?_eq_some_iff.mp hu) hj

end Sweep

end SolanaBench.TickTrigger.PohSupervisor
