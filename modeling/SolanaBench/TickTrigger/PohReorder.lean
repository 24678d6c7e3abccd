import SolanaBench.TickTrigger.PohConservation

/-! The reorder buffer of one slot. A slot that gets its entries in any order has
emitted a prefix of them, as if they had arrived in index order, and holds back the
others that have arrived. -/
namespace SolanaBench.TickTrigger.PohSupervisor

/-- What an ordered event says about the slot, without the traces of the reordering. -/
inductive View
  | entry (entryIndex : U32) (entryHash : Hash) (signatures : List Signature)
      (tickIdxInSlot cumulativeHashesInSlot : ℕ) (tickUncertain : Bool)
  | missing (entryIndex : U32)
  | terminal (e : OrderedEvent)
  deriving DecidableEq, Repr

def OrderedEvent.view : OrderedEvent → View
  | .entry e => .entry e.entryIndex e.observation.entryHash e.observation.signatures
      e.tickIdxInSlot e.cumulativeHashesInSlot e.tickUncertain
  | .missing m => .missing m.entryIndex
  | .slotComplete c => .terminal (.slotComplete c)
  | .slotIncomplete c => .terminal (.slotIncomplete c)

/-- The slot that gets every entry in its turn. -/
def inOrder : EventMachine PohSlot MergedEntry View where
  step s m := (emitted s ∅ m 0, [(entryEventOf s m 0 false 0).view])

/-- The state and the views after the first `n` entries. -/
def inOrderAt (E : List MergedEntry) (n : ℕ) : PohSlot × List View := inOrder.run {} (E.take n)

/-- The list holds the entries `0, …, n - 1` of slot `k`, each at its index. -/
def Complete (k : ℕ) (E : List MergedEntry) : Prop :=
  ∀ (i : ℕ) (m : MergedEntry), E[i]? = some m →
    m.observation.slot = k ∧ m.observation.entryIndex.val = i

/-- The states agree up to the buffer, the clock and the seal. -/
def Agrees (s t : PohSlot) : Prop :=
  s = { t with pending := s.pending, lastEmitAt := s.lastEmitAt, sealed := s.sealed }

section Agrees

variable {s t : PohSlot}

theorem Agrees.emitted (h : Agrees s t) (p : SortedMap U32 PendingEntry) (m : MergedEntry)
    (now : Instant) : Agrees (emitted s p m now) (inOrder.step t m).1 := by
  unfold Agrees at *
  rw [h]
  rfl

theorem Agrees.view (h : Agrees s t) (m : MergedEntry) (now : Instant) (wasReordered : Bool)
    (waitUs : ℕ) :
    [(entryEventOf s m now wasReordered waitUs).view] = (inOrder.step t m).2 := by
  unfold Agrees at h
  rw [h]
  rfl

theorem Agrees.touched (h : Agrees s t) (p : SortedMap U32 PendingEntry) (now : Instant) :
    Agrees { touch s now with pending := p } t := by
  unfold Agrees at *
  rw [h]
  rfl

theorem Agrees.nextExpectedIdx (h : Agrees s t) : s.nextExpectedIdx = t.nextExpectedIdx := by
  unfold Agrees at h
  rw [h]

theorem Agrees.terminalEvent (h : Agrees s t) (k : ℕ) : terminalEvent s k = terminalEvent t k := by
  unfold Agrees at h
  rw [h]
  rfl

end Agrees

section InOrderAt

variable {E : List MergedEntry} {k j : ℕ} {m : MergedEntry}

theorem inOrderAt_succ (hm : E[j]? = some m) :
    inOrderAt E (j + 1) = ((inOrder.step (inOrderAt E j).1 m).1,
      (inOrderAt E j).2 ++ (inOrder.step (inOrderAt E j).1 m).2) := by
  unfold inOrderAt
  rw [List.take_add_one, hm, Option.toList_some, EventMachine.run_append, EventMachine.run_cons]
  simp

theorem inOrderAt_next (E : List MergedEntry) (j : ℕ) (hj : j ≤ E.length) :
    (inOrderAt E j).1.nextExpectedIdx.val = j % 2 ^ 32 := by
  induction j with
  | zero => rfl
  | succ j ih =>
    have hm : E[j]? = some E[j] := List.getElem?_eq_getElem (by omega)
    have hnext : (inOrderAt E (j + 1)).1.nextExpectedIdx = (inOrderAt E j).1.nextExpectedIdx + 1 := by
      rw [inOrderAt_succ hm]
      rfl
    rw [hnext, Fin.val_add, ih (by omega)]
    simp

theorem Complete.lt (h : Complete k E) (hm : E[j]? = some m) : j < 2 ^ 32 := by
  have hidx := (h j m hm).2
  have hmax := m.observation.entryIndex.isLt
  omega

theorem Complete.eq_of_index (h : Complete k E) {i : ℕ} {m' : MergedEntry} (hm : E[i]? = some m)
    (hm' : E[j]? = some m') (heq : m = m') : i = j := by
  rw [← (h i m hm).2, ← (h j m' hm').2, heq]

theorem Complete.get (h : Complete k E) (hm : m ∈ E) :
    E[m.observation.entryIndex.val]? = some m := by
  obtain ⟨i, hi⟩ := List.mem_iff_getElem?.mp hm
  rw [(h i m hi).2]
  exact hi

theorem Complete.nodup (h : Complete k E) : E.Nodup := by
  rw [List.nodup_iff_getElem?_ne_getElem?]
  intro i j hij hj heq
  have hm : E[j]? = some E[j] := List.getElem?_eq_getElem hj
  have hm' : E[i]? = some E[j] := heq.trans hm
  exact hij.ne (h.eq_of_index hm' hm rfl)

end InOrderAt

/-! ## The buffer -/

/-- After the arrivals `A` out of `E`, the first `j` entries were emitted in order as `vs`,
and what else has arrived is in the buffer. -/
structure Reordered (E A : List MergedEntry) (j : ℕ) (s : PohSlot) (vs : List View) : Prop where
  le : j ≤ E.length
  agrees : Agrees s (inOrderAt E j).1
  views : vs = (inOrderAt E j).2
  before : ∀ m ∈ E.take j, m ∈ A
  held : ∀ e ∈ s.pending.entries,
    j ≤ e.1.val ∧ E[e.1.val]? = some e.2.merged ∧ e.2.merged ∈ A
  holds : ∀ (i : ℕ) (m : MergedEntry), E[i]? = some m → m ∈ A → j ≤ i → ∃ e ∈ s.pending.entries, e.1.val = i

/-- Between two calls the next entry of the sequence has not arrived. -/
def Waiting (E A : List MergedEntry) (j : ℕ) : Prop := ∀ m, E[j]? = some m → m ∉ A

theorem reordered_new (E : List MergedEntry) : Reordered E [] 0 {} [] where
  le := Nat.zero_le _
  agrees := rfl
  views := rfl
  before m hm := by simp at hm
  held e he := absurd he List.not_mem_nil
  holds i m _ hm := absurd hm List.not_mem_nil

section Reordered

variable {E A : List MergedEntry} {k j : ℕ} {s : PohSlot} {vs : List View} {m : MergedEntry}
  {cfg : Config} {now : Instant}

theorem Reordered.next_val (h : Reordered E A j s vs) :
    s.nextExpectedIdx.val = j % 2 ^ 32 := by
  rw [h.agrees.nextExpectedIdx]
  exact inOrderAt_next E j h.le

/-- The next entry is emitted, from the input or from the buffer. -/
theorem Reordered.emit (hE : Complete k E) (h : Reordered E A j s vs) (hm : E[j]? = some m)
    (A' : List MergedEntry) (hA : ∀ x ∈ A, x ∈ A') (hA' : ∀ x ∈ A', x ∈ A ∨ x = m) (hmA : m ∈ A')
    {p : SortedMap U32 PendingEntry}
    (hp : ∀ e, e ∈ p.entries ↔ e ∈ s.pending.entries ∧ e.1.val ≠ j)
    (now : Instant) (wasReordered : Bool) (waitUs : ℕ) :
    Reordered E A' (j + 1) (emitted s p m now)
      (vs ++ [(entryEventOf s m now wasReordered waitUs).view]) := by
  have hsucc := inOrderAt_succ hm
  refine ⟨?_, ?_, ?_, ?_, ?_, ?_⟩
  · have hlt := (List.getElem?_eq_some_iff.mp hm).1
    omega
  · rw [hsucc]
    exact h.agrees.emitted p m now
  · rw [hsucc, h.views, h.agrees.view]
  · intro x hx
    rw [List.take_add_one, hm, Option.toList_some, List.mem_append, List.mem_singleton] at hx
    rcases hx with hx | rfl
    · exact hA x (h.before x hx)
    · exact hmA
  · intro e he
    obtain ⟨hmem, hne⟩ := (hp e).mp he
    obtain ⟨hle, hget, harr⟩ := h.held e hmem
    exact ⟨by omega, hget, hA _ harr⟩
  · intro i x hx hxA hle
    have hne : x ≠ m := fun hxm => by
      have hij := hE.eq_of_index hx hm hxm
      omega
    obtain ⟨e, he, hei⟩ := h.holds i x hx ((hA' x hxA).resolve_right hne) (by omega)
    exact ⟨e, (hp e).mpr ⟨he, by omega⟩, hei⟩

/-- One iteration of the drain emits the next entry. -/
theorem Reordered.drainStep (hE : Complete k E) (h : Reordered E A j s vs)
    {r : PohSlot × List Output} (hb : (drainConsecutivePending now).body s = some r) :
    Reordered E A (j + 1) r.1 (vs ++ (Effect.sent r.2).map OrderedEvent.view) := by
  simp only [drainConsecutivePending] at hb
  split at hb
  · next e he =>
    split_ifs at hb with hne
    have heq : e.1 = s.nextExpectedIdx := not_not.mp hne
    obtain ⟨hle, hget, harr⟩ := h.held e (SortedMap.firstKeyValue_mem he)
    have hval : e.1.val = j := by
      have hnext := h.next_val
      rw [← heq] at hnext
      have hmod := Nat.mod_le j (2 ^ 32)
      omega
    have hp : ∀ x, x ∈ s.pending.popFirst.entries ↔ x ∈ s.pending.entries ∧ x.1.val ≠ j := by
      intro x
      constructor
      · intro hx
        have hlt := Fin.lt_def.mp (SortedMap.firstKeyValue_lt he x hx)
        exact ⟨SortedMap.mem_popFirst hx, by omega⟩
      · rintro ⟨hx, hxj⟩
        rw [SortedMap.entries_of_firstKeyValue he] at hx
        rcases List.mem_cons.mp hx with rfl | hx
        · exact absurd hval hxj
        · exact hx
    rw [hval] at hget
    rw [← Option.some.inj hb]
    exact h.emit hE hget A (fun _ hx => hx) (fun _ hx => Or.inl hx) harr hp now true
      (waitUs e.2 now)
  · simp at hb

/-- The drain stops only where the next entry has not arrived. -/
theorem Reordered.waiting_of_exit (hE : Complete k E) (h : Reordered E A j s vs)
    (hb : (drainConsecutivePending now).body s = none) : Waiting E A j := by
  intro m hm harr
  obtain ⟨e, he, hej⟩ := h.holds j m hm harr le_rfl
  simp only [drainConsecutivePending] at hb
  split at hb
  · next f hf =>
    split_ifs at hb with hne
    have hle := Fin.le_def.mp (SortedMap.firstKeyValue_le hf e he)
    have hge := (h.held f (SortedMap.firstKeyValue_mem hf)).1
    have hlt := hE.lt hm
    refine hne (Fin.ext ?_)
    rw [h.next_val, Nat.mod_eq_of_lt hlt]
    omega
  · next hnone =>
    rw [SortedMap.firstKeyValue_eq_none.mp hnone] at he
    exact List.not_mem_nil he

theorem Reordered.drain (hE : Complete k E) (h : Reordered E A j s vs) (now : Instant) :
    ∃ j', Reordered E A j' ((drainConsecutivePending now).exec s).1
        (vs ++ (Effect.sent ((drainConsecutivePending now).exec s).2).map OrderedEvent.view) ∧
      Waiting E A j' := by
  have hrun := (drainConsecutivePending now).exec_rule (s := s)
    (fun t os => ∃ j', Reordered E A j' t (vs ++ (Effect.sent os).map OrderedEvent.view))
    ⟨j, by simpa using h⟩ (by
      rintro t os u es ⟨j', hj'⟩ hb
      refine ⟨j' + 1, ?_⟩
      rw [Effect.sent_append, List.map_append, ← List.append_assoc]
      exact hj'.drainStep hE hb)
  obtain ⟨j', hj'⟩ := hrun
  exact ⟨j', hj', hj'.waiting_of_exit hE ((drainConsecutivePending now).exec_exits s)⟩

/-- An entry that is not its turn goes into the buffer. -/
theorem Reordered.buffered (h : Reordered E A j s vs) (now : Instant) (hE : Complete k E)
    (hw : Waiting E A j) (hm : E[m.observation.entryIndex.val]? = some m)
    (hlt : j < m.observation.entryIndex.val) :
    Reordered E (A ++ [m]) j
        { touch s now with pending := s.pending.insert m.observation.entryIndex ⟨m, now⟩ } vs ∧
      Waiting E (A ++ [m]) j := by
  refine ⟨⟨h.le, h.agrees.touched _ now, h.views, ?_, ?_, ?_⟩, ?_⟩
  · exact fun x hx => List.mem_append_left _ (h.before x hx)
  · intro e he
    rcases (SortedMap.mem_insert _).mp he with rfl | ⟨he, -⟩
    · exact ⟨hlt.le, hm, by simp⟩
    · obtain ⟨hle, hget, harr⟩ := h.held e he
      exact ⟨hle, hget, List.mem_append_left _ harr⟩
  · intro i x hx hxA hle
    by_cases hi : i = m.observation.entryIndex.val
    · exact ⟨_, (SortedMap.mem_insert _).mpr (Or.inl rfl), hi.symm⟩
    · have hne : x ≠ m := fun hxm => hi (hE.eq_of_index hx hm hxm)
      have hxA' : x ∈ A := by simpa [hne] using hxA
      obtain ⟨e, he, hei⟩ := h.holds i x hx hxA' hle
      refine ⟨e, (SortedMap.mem_insert _).mpr (Or.inr ⟨he, fun hk => ?_⟩), hei⟩
      rw [hk] at hei
      exact hi hei.symm
  · intro x hx hxA
    have hne : x ≠ m := fun hxm => hlt.ne (hE.eq_of_index hx hm hxm)
    exact hw x hx (by simpa [hne] using hxA)

/-- A new arrival of the slot is emitted in its turn or held back. -/
theorem Reordered.arrival (h : Reordered E A j s vs) (now : Instant) (hE : Complete k E)
    (hw : Waiting E A j) (hu : s.sealed = false) (hm : m ∈ E) (hnew : m ∉ A)
    (hroom : s.nextExpectedIdx < m.observation.entryIndex →
      s.pending.size < cfg.maxPendingPerSlot) :
    ∃ j', Reordered E (A ++ [m]) j' (processSlot cfg s m now).1
        (vs ++ (Effect.sent (processSlot cfg s m now).2).map OrderedEvent.view) ∧
      Waiting E (A ++ [m]) j' := by
  have hget := hE.get hm
  have hnext := h.next_val
  have hge : j ≤ m.observation.entryIndex.val := by
    by_contra hlt
    refine hnew (h.before m (List.mem_iff_getElem?.mpr ⟨m.observation.entryIndex.val, ?_⟩))
    rw [List.getElem?_take_of_lt (by omega)]
    exact hget
  have hj : s.nextExpectedIdx.val = j := by
    rw [hnext]
    exact Nat.mod_eq_of_lt (by omega)
  rcases lt_trichotomy m.observation.entryIndex s.nextExpectedIdx with hlt | heq | hgt
  · have hlt' := Fin.lt_def.mp hlt
    omega
  · have hmj : E[j]? = some m := by
      rw [← hj, ← heq]
      exact hget
    have hp : ∀ e, e ∈ s.pending.entries ↔ e ∈ s.pending.entries ∧ e.1.val ≠ j := by
      intro e
      refine ⟨fun he => ⟨he, fun hej => ?_⟩, fun he => he.1⟩
      obtain ⟨-, hget', harr⟩ := h.held e he
      rw [hej] at hget'
      exact hw _ hget' harr
    have hemit := h.emit hE hmj (A ++ [m]) (fun x hx => List.mem_append_left _ hx)
      (fun x hx => by simpa using hx) (by simp) hp now false 0
    obtain ⟨j', hj', hw'⟩ := hemit.drain hE now
    rw [processSlot_emit hu heq]
    refine ⟨j', ?_, hw'⟩
    dsimp only
    rw [Effect.sent_append, List.map_append, ← List.append_assoc]
    exact hj'
  · rw [processSlot_buffer hu hgt (hroom hgt)]
    have hgt' := Fin.lt_def.mp hgt
    have hbuffered := h.buffered now hE hw hget (by omega)
    exact ⟨j, by simpa using hbuffered.1, hbuffered.2⟩

/-- Once everything has arrived, everything is emitted and the buffer is empty. -/
theorem Reordered.finished (h : Reordered E A j s vs) (hw : Waiting E A j)
    (hall : ∀ m ∈ E, m ∈ A) : j = E.length ∧ s.pending.entries = [] := by
  have hj : j = E.length := by
    by_contra hne
    have hle := h.le
    have hm : E[j]? = some E[j] := List.getElem?_eq_getElem (by omega)
    exact hw _ hm (hall _ (List.mem_of_getElem? hm))
  refine ⟨hj, List.eq_nil_iff_forall_not_mem.mpr fun e he => ?_⟩
  obtain ⟨hle, hget, -⟩ := h.held e he
  have hlt := (List.getElem?_eq_some_iff.mp hget).1
  omega

end Reordered

end SolanaBench.TickTrigger.PohSupervisor
