import SolanaBench.TickTrigger.PohLifecycle
import SolanaBench.TickTrigger.PohOrder

/-! Tick numbering: an entry carries the number of ticks up to it, as long as the
late branch of `process` never counts a tick a second time. -/
namespace SolanaBench.TickTrigger.PohSupervisor

def isTickEntry (e : OrderedEntry) : Bool := e.observation.txCount == 0

/-- The emitted entries without transactions. -/
def ticksIn (l : List OrderedEvent) : ℕ := (entriesIn l).countP isTickEntry

/-- The same among the indices `0..=i`. -/
def ticksUpTo (i : U32) (l : List OrderedEvent) : ℕ :=
  (entriesIn l).countP fun e => isTickEntry e && decide (e.entryIndex ≤ i)

/-- The numbering law of the events of one slot. -/
def TickLaw (l : List OrderedEvent) : Prop :=
  (∀ e ∈ entriesIn l, e.tickUncertain = false →
    e.tickIdxInSlot = min 64 (ticksUpTo e.entryIndex l)) ∧
  (∀ c, .slotComplete c ∈ l → c.missingCount = 0 → 64 ≤ ticksIn l) ∧
  (∀ c, .slotIncomplete c ∈ l → c.missingCount = 0 → ticksIn l < 64)

/-- The arrival `m` does not count a tick a second time in the state `s`: it is no
late tick of a slot without gaps, and the index has not run over `u32::MAX`. -/
def CountsTicksOnce (s : PohSlot) (m : MergedEntry) : Prop :=
  s.lastEntryIndex.val ≠ 2 ^ 32 - 1 ∧
    (s.hasMissing = false → m.observation.entryIndex < s.nextExpectedIdx →
      countsTick s m.observation = false)

instance (s : PohSlot) (m : MergedEntry) : Decidable (CountsTicksOnce s m) :=
  inferInstanceAs (Decidable (_ ∧ _))

/-- Before a gap, an entry carries the number of ticks up to and including it. -/
def TickNumbered (pre : List OrderedEvent) (x : OrderedEvent) : Prop :=
  ∀ e, x = .entry e → e.tickUncertain = false → e.tickIdxInSlot = min 64 (ticksIn (pre ++ [x]))

@[simp] theorem ticksIn_append (l m : List OrderedEvent) :
    ticksIn (l ++ m) = ticksIn l + ticksIn m := by
  simp [ticksIn, List.countP_append]

theorem ticksIn_entry (e : OrderedEntry) :
    ticksIn [.entry e] = if isTickEntry e then 1 else 0 := by
  simp [ticksIn, List.countP_cons]

/-- Counting one more entry, with the cap at `TICKS_PER_SLOT`. -/
theorem tickAfter_eq_min {s : PohSlot} {obs : EntryObservation} {n : ℕ} (h : s.tickIdx = min 64 n) :
    tickAfter s obs = min 64 (n + if obs.txCount == 0 then 1 else 0) := by
  unfold tickAfter countsTick satAddU8 TICKS_PER_SLOT
  rw [h]
  cases htx : obs.txCount == 0 with
  | false => simp
  | true =>
    by_cases hn : n < 64
    · have hmin : min 64 n = n := by omega
      simp only [hmin, hn, decide_true, Bool.and_self, if_true]
      omega
    · have hmin : min 64 n = 64 := by omega
      simp only [hmin, lt_irrefl, decide_false, Bool.and_false, Bool.false_eq_true, if_false, if_true]
      omega

/-- The slot state agrees with the ticks emitted so far in this lifetime. -/
structure TickAccounts (s : PohSlot) (l : List OrderedEvent) : Prop where
  numbered : Numbered l.length l
  next : s.nextExpectedIdx.val = l.length % 2 ^ 32
  wrapped : l.length < 2 ^ 32 ∨
    l.length = 2 ^ 32 ∧ s.pending.entries = [] ∧ s.lastEntryIndex.val = 2 ^ 32 - 1
  ticks : s.hasMissing = false → s.tickIdx = min 64 (ticksIn l)
  missing : s.missingCount = 0 ↔ s.hasMissing = false
  events : EverySplit TickNumbered l

theorem tickAccounts_new : TickAccounts {} [] where
  numbered := rfl
  next := rfl
  wrapped := Or.inl (by decide)
  ticks := fun _ => rfl
  missing := by simp
  events := EverySplit.nil

theorem TickAccounts.emitted {s : PohSlot} {l : List OrderedEvent} (h : TickAccounts s l)
    (hlt : l.length < 2 ^ 32) {m : MergedEntry}
    (hidx : m.observation.entryIndex = s.nextExpectedIdx) {p : SortedMap U32 PendingEntry}
    (hp : ∀ e ∈ p.entries, s.nextExpectedIdx < e.1) (now : Instant) (wasReordered : Bool)
    (waitUs : ℕ) :
    TickAccounts (emitted s p m now) (l ++ [entryEventOf s m now wasReordered waitUs]) := by
  have hnext : s.nextExpectedIdx.val = l.length := by
    rw [h.next, Nat.mod_eq_of_lt hlt]
  have hlen : (l ++ [entryEventOf s m now wasReordered waitUs]).length = l.length + 1 := by simp
  have hticks : ticksIn (l ++ [entryEventOf s m now wasReordered waitUs]) =
      ticksIn l + if m.observation.txCount == 0 then 1 else 0 := by
    rw [ticksIn_append, entryEventOf, ticksIn_entry]
    rfl
  refine ⟨?_, ?_, ?_, ?_, h.missing, h.events.snoc ?_⟩
  · rw [hlen]
    refine h.numbered.snoc ?_
    rw [← hnext, ← hidx]
    rfl
  · rw [hlen, emitted_nextExpectedIdx, Fin.val_add, hnext]
    rfl
  · rw [hlen]
    by_cases hfull : l.length + 1 < 2 ^ 32
    · exact Or.inl hfull
    · -- the last index: nothing can be buffered beyond it
      refine Or.inr ⟨by omega, List.eq_nil_iff_forall_not_mem.mpr fun e he => ?_, ?_⟩
      · have hgt := Fin.lt_def.mp (hp e he)
        have hmax := e.1.isLt
        omega
      · rw [emitted_lastEntryIndex, hidx, hnext]
        omega
  · intro hmiss
    rw [hticks, emitted_tickIdx]
    exact tickAfter_eq_min (h.ticks hmiss)
  · intro e he hunc
    rw [hticks]
    rw [← OrderedEvent.entry.inj he] at hunc ⊢
    exact tickAfter_eq_min (h.ticks hunc)

theorem TickAccounts.skipped {s : PohSlot} {l : List OrderedEvent} (h : TickAccounts s l)
    (hlt : s.nextExpectedIdx.val < 2 ^ 32 - 1) (hlen : l.length < 2 ^ 32) (k waitUs : ℕ) :
    TickAccounts (skipped s) (l ++ [.missing ⟨k, s.nextExpectedIdx, waitUs⟩]) := by
  have hnext : s.nextExpectedIdx.val = l.length := by
    rw [h.next, Nat.mod_eq_of_lt hlen]
  refine ⟨?_, ?_, Or.inl ?_, fun hm => by simp at hm, ?_, h.events.snoc fun e he => by simp at he⟩
  · rw [List.length_append, List.length_singleton]
    refine h.numbered.snoc ?_
    rw [← hnext]
    rfl
  · rw [skipped_nextExpectedIdx, val_add_one_of_lt hlt, List.length_append, List.length_singleton,
      Nat.mod_eq_of_lt (by omega), hnext]
  · rw [List.length_append, List.length_singleton]
    omega
  · have hpos : satAddU32 s.missingCount 1 ≠ 0 := by
      unfold satAddU32 U32.MAX
      omega
    simp [hpos]

/-- Moves that emit nothing keep the tick accounts when they keep the relevant fields. -/
theorem TickAccounts.silent {s t : PohSlot} {l : List OrderedEvent} (h : TickAccounts s l)
    (hnext : t.nextExpectedIdx = s.nextExpectedIdx)
    (hwrap : l.length < 2 ^ 32 ∨ t.pending = s.pending ∧ t.lastEntryIndex = s.lastEntryIndex)
    (hmiss : t.hasMissing = s.hasMissing) (hcount : t.missingCount = s.missingCount)
    (hticks : s.hasMissing = false → t.tickIdx = s.tickIdx) : TickAccounts t (l ++ []) := by
  rw [List.append_nil]
  refine ⟨h.numbered, by rw [hnext]; exact h.next, ?_, ?_, ?_, h.events⟩
  · rcases hwrap with hlt | ⟨hp, hlast⟩
    · exact Or.inl hlt
    · rw [hp, hlast]
      exact h.wrapped
  · intro hm
    rw [hmiss] at hm
    rw [hticks hm]
    exact h.ticks hm
  · rw [hcount, hmiss]
    exact h.missing

/-- What the terminal event says when there was no gap. -/
def TerminalTicks (l : List OrderedEvent) : OrderedEvent → Prop
  | .slotComplete c => c.missingCount = 0 → 64 ≤ ticksIn l
  | .slotIncomplete c => c.missingCount = 0 → ticksIn l < 64
  | _ => False

theorem TickAccounts.terminalTicks {s : PohSlot} {l : List OrderedEvent} (h : TickAccounts s l)
    (k : ℕ) : TerminalTicks l (terminalEvent s k) := by
  unfold terminalEvent TICKS_PER_SLOT
  split_ifs with htick
  · intro hm
    have heq := h.ticks (h.missing.mp hm)
    omega
  · intro hm
    have heq := h.ticks (h.missing.mp hm)
    omega

/-- An unsealed slot accounts for its ticks; a sealed one has closed its log. -/
def Ticked (s : PohSlot) (l : List OrderedEvent) : Prop :=
  (s.sealed = false → TickAccounts s l) ∧
    (s.sealed = true → ∃ body term, l = body ++ [term] ∧ Numbered body.length body ∧
      EverySplit TickNumbered body ∧ TerminalTicks body term)

variable {P : MergedEntry → Prop} {k : ℕ}

theorem TickAccounts.short_of_meets {s : PohSlot} {l : List OrderedEvent} (h : TickAccounts s l)
    {m : MergedEntry} (hq : CountsTicksOnce s m) : l.length < 2 ^ 32 :=
  h.wrapped.resolve_right fun hw => hq.1 hw.2.2

theorem TickAccounts.short_of_pending {s : PohSlot} {l : List OrderedEvent}
    (h : TickAccounts s l) {e : U32 × PendingEntry} (he : e ∈ s.pending.entries) :
    l.length < 2 ^ 32 :=
  h.wrapped.resolve_right fun hw => by simp [hw.2.1] at he

/-- The step lemma: a move whose arrival counts no tick twice keeps the tick accounts. -/
theorem Move.ticked {s t : PohSlot} {l es : List OrderedEvent}
    (h : Move P CountsTicksOnce k s es t) (ht : Ticked s l) : Ticked t (l ++ es) := by
  cases h with
  | emit p m now wasReordered waitUs hs hm hidx hp hq =>
    have ha := ht.1 hs
    have hlt : l.length < 2 ^ 32 := by
      rcases hq with hq | ⟨e, he, -⟩
      · exact ha.short_of_meets hq
      · exact ha.short_of_pending he
    exact ⟨fun _ => ha.emitted hlt hidx (fun e he => (hp e he).2) now wasReordered waitUs,
      fun h => by simp [hs] at h⟩
  | skip e waitUs hs he hgap =>
    have ha := ht.1 hs
    have hlt : s.nextExpectedIdx.val < 2 ^ 32 - 1 := by
      have hgt := Fin.lt_def.mp (hgap e he)
      have hmax := e.1.isLt
      omega
    exact ⟨fun _ => ha.skipped hlt (ha.short_of_pending he) k waitUs, fun h => by simp [hs] at h⟩
  | buffer m now last hs hm hq hidx =>
    have ha := ht.1 hs
    exact ⟨fun _ => ha.silent rfl (Or.inl (ha.short_of_meets hq)) rfl rfl fun _ => rfl,
      fun h => by simp [hs] at h⟩
  | refuse last hs =>
    exact ⟨fun _ => (ht.1 hs).silent rfl (Or.inr ⟨rfl, rfl⟩) rfl rfl fun _ => rfl,
      fun h => by simp [hs] at h⟩
  | late m last hs hq hidx =>
    have hkeep : s.hasMissing = false → tickAfter s m.observation = s.tickIdx := by
      intro hmiss
      simp [tickAfter, hq.2 hmiss hidx]
    exact ⟨fun _ => (ht.1 hs).silent rfl (Or.inr ⟨rfl, rfl⟩) rfl rfl hkeep,
      fun h => by simp [hs] at h⟩
  | close hs hp =>
    have ha := ht.1 hs
    exact ⟨fun h => by simp at h, fun _ =>
      ⟨l, _, rfl, ha.numbered, ha.events, ha.terminalTicks k⟩⟩

theorem entriesIn_terminal {term : OrderedEvent} {l : List OrderedEvent}
    (h : TerminalTicks l term) : entriesIn [term] = [] := by
  cases term with
  | entry e => exact absurd h id
  | missing m => exact absurd h id
  | slotComplete c => rfl
  | slotIncomplete c => rfl

/-- In a numbered log the ticks up to an entry's index are those emitted up to it. -/
theorem ticksUpTo_eq_ticksIn {n : ℕ} {pre post : List OrderedEvent} {e : OrderedEntry}
    (h : Numbered n (pre ++ .entry e :: post)) :
    ticksUpTo e.entryIndex (pre ++ .entry e :: post) = ticksIn (pre ++ [.entry e]) := by
  have hsplit : pre ++ .entry e :: post = pre ++ [.entry e] ++ post := by simp
  have hs := h.entries_sorted
  rw [hsplit, entriesIn_append, entriesIn_append, entriesIn_entry, List.append_assoc,
    List.singleton_append, List.pairwise_append, List.pairwise_cons] at hs
  obtain ⟨-, ⟨hafter, -⟩, hbefore⟩ := hs
  have hpre : (entriesIn pre ++ [e]).countP (fun f => isTickEntry f && decide (f.entryIndex ≤ e.entryIndex)) =
      (entriesIn pre ++ [e]).countP isTickEntry := by
    refine List.countP_congr fun f hf => ?_
    have hle : f.entryIndex ≤ e.entryIndex := by
      rcases List.mem_append.mp hf with hf | hf
      · exact (hbefore f hf e List.mem_cons_self).le
      · rw [List.mem_singleton.mp hf]
    simp [hle]
  have hpost : (entriesIn post).countP (fun f => isTickEntry f && decide (f.entryIndex ≤ e.entryIndex)) = 0 := by
    refine List.countP_eq_zero.mpr fun f hf => ?_
    simp [not_le.mpr (hafter f hf)]
  unfold ticksUpTo ticksIn
  rw [hsplit, entriesIn_append, List.countP_append, hpost, Nat.add_zero, entriesIn_append,
    entriesIn_entry, hpre]

theorem EndedLife.tickLaw {l : List OrderedEvent} (h : EndedLife P CountsTicksOnce k l) :
    TickLaw l := by
  obtain ⟨s, hl, hsealed⟩ := h
  have hall := hl.rule Ticked ⟨fun _ => tickAccounts_new, fun h => by simp at h⟩
    fun _ _ _ _ ht hm => hm.ticked ht
  obtain ⟨body, term, hbody, hnum, hev, hterm⟩ := hall.2 hsealed
  subst hbody
  have hnone := entriesIn_terminal hterm
  have hticks : ticksIn (body ++ [term]) = ticksIn body := by simp [ticksIn, hnone]
  have hnot := hnum.index?_ne_none
  refine ⟨?_, ?_, ?_⟩
  · intro e he hunc
    rw [entriesIn_append, hnone, List.append_nil] at he
    obtain ⟨pre, post, rfl⟩ := List.append_of_mem (mem_entriesIn.mp he)
    have hup : ticksUpTo e.entryIndex (pre ++ .entry e :: post ++ [term]) =
        ticksUpTo e.entryIndex (pre ++ .entry e :: post) := by
      rw [ticksUpTo, entriesIn_append, hnone, List.append_nil, ticksUpTo]
    rw [hup, ticksUpTo_eq_ticksIn hnum]
    exact hev pre _ post rfl e rfl hunc
  · intro c hc hmiss
    rcases List.mem_append.mp hc with hc | hc
    · exact absurd rfl (hnot _ hc)
    · rw [hticks]
      rw [← List.mem_singleton.mp hc] at hterm
      exact hterm hmiss
  · intro c hc hmiss
    rcases List.mem_append.mp hc with hc | hc
    · exact absurd rfl (hnot _ hc)
    · rw [hticks]
      rw [← List.mem_singleton.mp hc] at hterm
      exact hterm hmiss

/-! ## Whole runs -/

theorem length_lifetimes_le_one {cfg : Config} {is : List Input} (now : Instant)
    (h : NeverRevived cfg k is) : (lifetimes cfg k is now).length ≤ 1 := by
  rw [length_lifetimes]
  exact (census_run cfg k is).guarded.answered_le_one h

/-- In every run whose arrivals count no tick twice, the tick law holds of each
lifetime, and of all events of a slot that is never revived. -/
theorem tickLaw_of_countsTicksOnce (cfg : Config) (is : List Input) (now : Instant)
    (h : (machine cfg).Along (Meets (fun _ => True) CountsTicksOnce) {} is) (k : ℕ) :
    (∀ l ∈ lifetimes cfg k is now, TickLaw l) ∧
      (NeverRevived cfg k is → TickLaw (eventsOf k (runLoop cfg is now))) := by
  obtain ⟨hflat, hended⟩ := lifetimes_spec h k now
  have hlaw : ∀ l ∈ lifetimes cfg k is now, TickLaw l := fun l hl => (hended l hl).tickLaw
  refine ⟨hlaw, fun hn => ?_⟩
  have hlen := length_lifetimes_le_one now hn
  rw [← hflat]
  match hls : lifetimes cfg k is now with
  | [] => simp [TickLaw]
  | [l] => simpa using hlaw l (by simp [hls])
  | l :: l' :: ls =>
    rw [hls] at hlen
    simp at hlen

theorem tickLaw_of_countsTicksOnce_gap :
    let is := [.arrival (sampleEntry 7 0 0 10) 0, .arrival (sampleEntry 7 2 0 12) 1,
      .sweep 200000000, .arrival (sampleEntry 7 1 0 11) 200000001]
    (∀ l ∈ lifetimes defaultConfig 7 is 300000000, TickLaw l) ∧
      (NeverRevived defaultConfig 7 is →
        TickLaw (eventsOf 7 (runLoop defaultConfig is 300000000))) :=
  tickLaw_of_countsTicksOnce defaultConfig _ 300000000 (by decide +kernel) 7

/-- A second copy of tick entry 0 is counted by the late branch, so entry 1, the
second tick, carries the number 3. -/
theorem late_duplicate_counts_twice :
    ¬∀ (cfg : Config) (is : List Input) (now : Instant) (k : ℕ),
      TickLaw (eventsOf k (runLoop cfg is now)) := by
  intro h
  have hentries := (h defaultConfig
    [.arrival (sampleEntry 7 0 0 10) 0, .arrival (sampleEntry 7 0 0 10) 1,
      .arrival (sampleEntry 7 1 0 11) 2] 300000000 7).1
  revert hentries
  decide +kernel

end SolanaBench.TickTrigger.PohSupervisor
