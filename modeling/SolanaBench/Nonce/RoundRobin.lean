import SolanaBench.Nonce.Manager

/-! The round robin of `take_ready`: what one call does, and that a ready nonce is handed out
within as many calls as there are nonces. -/
namespace SolanaBench.Nonce
namespace NonceManager

/-- A whole `take_ready`, or another access to an entry. -/
inductive Call
  | takeReady (now : Instant)
  | access (a : Action)
  | setState (idx : ℕ) (s : NonceState)
  deriving DecidableEq, Repr

def Call.isTakeReady : Call → Bool
  | .takeReady _ => true
  | _ => false

def calls : EventMachine NonceManager Call (NonceId × Pubkey × Hash) where
  step m
    | .takeReady now => ((m.takeReady now).1, (m.takeReady now).2.toList)
    | .access a => m.step a
    | .setState idx s => (m.setState idx s, [])

/-- The call returns the nonce at `k`, and changes no other entry. -/
structure HandsOut (m : NonceManager) (now : Instant) (k : ℕ) (e : NonceEntry) (bh : Hash) :
    Prop where
  found : m.entries[k]? = some e
  ready : e.state = .ready bh
  returned : (m.takeReady now).2 = some (e.id, e.pubkey, bh)
  entries : (m.takeReady now).1.entries = m.entries.set k { e with state := .inFlight bh now }

/-- The call is a `take_ready` that returns the nonce at `k`. -/
def Grants (m : NonceManager) (k : ℕ) : Call → Prop
  | .takeReady now => ∃ e bh, m.HandsOut now k e bh
  | _ => False

def ReadyAt (m : NonceManager) (k : ℕ) : Prop := ∃ e ∈ m.entries[k]?, e.state.isReady = true

instance (m : NonceManager) (k : ℕ) : Decidable (m.ReadyAt k) :=
  inferInstanceAs (Decidable (∃ e ∈ m.entries[k]?, _))

section

variable {m : NonceManager} {k n : ℕ} {e : NonceEntry} {bh : Hash} {now : Instant}

theorem eq_ready {s : NonceState} (h : s.isReady = true) : s = .ready s.blockhash := by
  cases s with
  | ready bh => rfl
  | _ => cases h

theorem entries_setState (h : m.entries[k]? = some e) (s : NonceState) :
    (m.setState k s).entries = m.entries.set k { e with state := s } := by
  obtain ⟨hlt, rfl⟩ := List.getElem?_eq_some_iff.mp h
  exact List.modify_eq_set_get _ hlt

/-- The loop stops at the first ready entry. -/
theorem takeFirst_cases (now : Instant) (idxs : List ℕ) (m : NonceManager) :
    ((∀ idx ∈ idxs, ∀ e, m.entries[idx]? = some e → e.state.isReady = false) ∧
        takeFirst now idxs m = (m, none)) ∨
      ∃ idx ∈ idxs, ∃ e bh, m.entries[idx]? = some e ∧ e.state = .ready bh ∧
        takeFirst now idxs m = (m.setState idx (.inFlight bh now), some (e.id, e.pubkey, bh)) := by
  induction idxs with
  | nil => exact Or.inl ⟨fun idx hidx => absurd hidx List.not_mem_nil, rfl⟩
  | cons idx idxs ih =>
    by_cases hr : m.ReadyAt idx
    · obtain ⟨e, he, hready⟩ := hr
      exact Or.inr ⟨idx, List.mem_cons_self, e, _, he, eq_ready hready,
        takeFirst_of_ready he (eq_ready hready) now idxs⟩
    · have hno : ∀ e, m.entries[idx]? = some e → e.state.isReady = false := fun e he =>
        Bool.eq_false_iff.mpr fun hready => hr ⟨e, he, hready⟩
      rw [takeFirst_of_not_ready hno]
      refine ih.imp (fun ⟨hall, hrun⟩ => ⟨?_, hrun⟩) fun ⟨j, hj, hrest⟩ =>
        ⟨j, List.mem_cons_of_mem idx hj, hrest⟩
      intro j hj
      rcases List.mem_cons.mp hj with rfl | hj
      · exact hno
      · exact hall j hj

/-- The indices that `take_ready` goes through. -/
def probeOrder (cursor n : ℕ) : List ℕ :=
  (List.range n).map fun offset => (cursor % n + offset) % n

theorem takeReady_of_pos (h : 0 < m.entries.length) (now : Instant) :
    m.takeReady now = takeFirst now (probeOrder m.rrCursor m.entries.length)
      { m with rrCursor := (m.rrCursor + 1) % 2 ^ 64 } := if_neg h.ne'

/-- The cursor comes round to every index. -/
theorem exists_offset (cursor : ℕ) (hk : k < n) : ∃ j < n, (cursor + j) % n = k := by
  have hn : 0 < n := Nat.zero_lt_of_lt hk
  have hlt := Nat.mod_lt cursor hn
  refine ⟨(k + n - cursor % n) % n, Nat.mod_lt _ hn, ?_⟩
  rw [Nat.add_mod_mod, ← Nat.mod_add_mod, show cursor % n + (k + n - cursor % n) = k + n by omega,
    Nat.add_mod_right, Nat.mod_eq_of_lt hk]

theorem mem_probeOrder (cursor : ℕ) (hk : k < n) : k ∈ probeOrder cursor n := by
  obtain ⟨j, hj, hjk⟩ := exists_offset (cursor % n) hk
  exact List.mem_map.mpr ⟨j, List.mem_range.mpr hj, hjk⟩

theorem probeOrder_eq_cons (cursor : ℕ) (hn : 0 < n) :
    ∃ rest, probeOrder cursor n = cursor % n :: rest := by
  obtain ⟨n, rfl⟩ : ∃ n', n = n' + 1 := ⟨n - 1, by omega⟩
  refine ⟨((List.range n).map Nat.succ).map fun offset =>
    (cursor % (n + 1) + offset) % (n + 1), ?_⟩
  unfold probeOrder
  rw [List.range_succ_eq_map, List.map_cons, Nat.add_zero, Nat.mod_mod]

/-- `take_ready` fails without a ready entry, and returns one otherwise. -/
theorem takeReady_cases (m : NonceManager) (now : Instant) :
    ((∀ e ∈ m.entries, e.state.isReady = false) ∧ (m.takeReady now).2 = none ∧
        (m.takeReady now).1.entries = m.entries) ∨
      ∃ k e bh, m.HandsOut now k e bh := by
  rcases Nat.eq_zero_or_pos m.entries.length with hempty | hpos
  · have hnil := List.eq_nil_of_length_eq_zero hempty
    refine Or.inl ⟨fun e he => ?_, ?_⟩
    · rw [hnil] at he
      cases he
    · have htake : m.takeReady now = (m, none) := if_pos hempty
      rw [htake]
      exact ⟨rfl, rfl⟩
  · rcases takeFirst_cases now (probeOrder m.rrCursor m.entries.length)
      { m with rrCursor := (m.rrCursor + 1) % 2 ^ 64 } with ⟨hall, hrun⟩ | ⟨k, -, e, bh, he, hs, hrun⟩
    · rw [← takeReady_of_pos hpos] at hrun
      refine Or.inl ⟨fun e he => ?_, by rw [hrun], by rw [hrun]⟩
      obtain ⟨k, hk, rfl⟩ := List.getElem_of_mem he
      exact hall k (mem_probeOrder _ hk) _ (List.getElem?_eq_getElem hk)
    · rw [← takeReady_of_pos hpos] at hrun
      refine Or.inr ⟨k, e, bh, he, hs, by rw [hrun], ?_⟩
      rw [hrun]
      exact entries_setState he _

/-- A call that starts at a ready entry returns it. -/
theorem handsOut_of_start (hk : k < m.entries.length) (hstart : m.rrCursor % m.entries.length = k)
    (hready : m.ReadyAt k) (now : Instant) : ∃ e bh, m.HandsOut now k e bh := by
  obtain ⟨e, he, hready⟩ := hready
  obtain ⟨rest, hrest⟩ := probeOrder_eq_cons m.rrCursor (Nat.zero_lt_of_lt hk)
  set m' : NonceManager := { m with rrCursor := (m.rrCursor + 1) % 2 ^ 64 }
  have he' : m'.entries[k]? = some e := he
  have hrun : m.takeReady now = takeFirst now (k :: rest) m' := by
    rw [takeReady_of_pos (Nat.zero_lt_of_lt hk), hrest, hstart]
  rw [takeFirst_of_ready he' (eq_ready hready)] at hrun
  refine ⟨e, _, he, eq_ready hready, by rw [hrun], ?_⟩
  rw [hrun]
  exact entries_setState he _

/-! ## Runs of calls -/

theorem length_step (m : NonceManager) (a : Action) :
    (m.step a).1.entries.length = m.entries.length ∧ (m.step a).1.rrCursor = m.rrCursor := by
  unfold step setState
  split
  · exact ⟨rfl, rfl⟩
  · split
    · exact ⟨rfl, rfl⟩
    · exact ⟨List.length_modify .., rfl⟩

theorem takeFirst_frame (now : Instant) (idxs : List ℕ) (m : NonceManager) :
    (takeFirst now idxs m).1.entries.length = m.entries.length ∧
      (takeFirst now idxs m).1.rrCursor = m.rrCursor := by
  rcases takeFirst_cases now idxs m with ⟨-, hrun⟩ | ⟨idx, -, e, bh, -, -, hrun⟩
  · rw [hrun]
    exact ⟨rfl, rfl⟩
  · rw [hrun]
    exact ⟨List.length_modify .., rfl⟩

/-- Only `take_ready` moves the cursor, one further each time. -/
theorem calls_frame (hpos : 0 < m.entries.length) (c : Call) :
    (calls.step m c).1.entries.length = m.entries.length ∧ (calls.step m c).1.rrCursor =
      if c.isTakeReady then (m.rrCursor + 1) % 2 ^ 64 else m.rrCursor := by
  cases c with
  | takeReady now =>
    change (m.takeReady now).1.entries.length = _ ∧ (m.takeReady now).1.rrCursor = _
    rw [takeReady_of_pos hpos]
    exact takeFirst_frame ..
  | access a => exact length_step m a
  | setState idx s => exact ⟨List.length_modify .., rfl⟩

theorem cursor_run (hpos : 0 < m.entries.length) {cs : List Call}
    (hlt : m.rrCursor + cs.countP Call.isTakeReady < 2 ^ 64) :
    (calls.run m cs).1.entries.length = m.entries.length ∧
      (calls.run m cs).1.rrCursor = m.rrCursor + cs.countP Call.isTakeReady := by
  induction cs using List.reverseRecOn with
  | nil => exact ⟨rfl, rfl⟩
  | append_singleton cs c ih =>
    rw [List.countP_append, List.countP_singleton] at hlt ⊢
    obtain ⟨hlen, hcursor⟩ := ih (by omega)
    obtain ⟨hlen', hcursor'⟩ := calls_frame (hlen ▸ hpos) c
    rw [EventMachine.run_snoc_fst]
    refine ⟨hlen'.trans hlen, ?_⟩
    rw [hcursor', hcursor]
    split
    · rw [if_pos ‹_›] at hlt
      exact Nat.mod_eq_of_lt hlt
    · rfl

end

/-- A ready entry that is not taken otherwise is returned by one of as many calls as there are
entries. -/
theorem granted_of_ready {m : NonceManager} {k : ℕ} (hk : k < m.entries.length)
    (hcursor : m.rrCursor + m.entries.length ≤ 2 ^ 64) {cs : List Call}
    (hcount : cs.countP Call.isTakeReady = m.entries.length)
    (hready : EverySplit (fun pre _ => SomeSplit (fun pre c => Grants (calls.run m pre).1 k c) pre ∨
      (calls.run m pre).1.ReadyAt k) cs) :
    SomeSplit (fun pre c => Grants (calls.run m pre).1 k c) cs := by
  -- the call whose cursor is at the entry
  obtain ⟨j, hj, hjk⟩ := exists_offset m.rrCursor hk
  obtain ⟨pre, c, post, hsplit, hc, hpre⟩ := exists_split_countP (hcount ▸ hj)
  obtain ⟨hlen, hat⟩ := @cursor_run m (Nat.zero_lt_of_lt hk) pre (by omega)
  rcases hready pre c post hsplit with hgranted | hready
  · obtain ⟨pre', c', post', rfl, hgrants⟩ := hgranted
    exact ⟨pre', c', post' ++ c :: post, by simp [hsplit], hgrants⟩
  · refine ⟨pre, c, post, hsplit, ?_⟩
    cases c with
    | takeReady now =>
      refine handsOut_of_start (hlen ▸ hk) ?_ hready now
      rw [hlen, hat, hpre, hjk]
    | access a => cases hc
    | setState idx s => cases hc

/-- A `take_ready` fails exactly without a ready entry and else returns one and changes only it,
and as many of them as there are entries return every entry that stays ready until then. -/
theorem take_ready_law (m : NonceManager) :
    (∀ now, ((m.takeReady now).2 = none ∧ (m.takeReady now).1.entries = m.entries ↔
        ∀ e ∈ m.entries, e.state.isReady = false) ∧
      ((∃ e ∈ m.entries, e.state.isReady = true) → ∃ k e bh, m.HandsOut now k e bh)) ∧
    ∀ (k : ℕ) (cs : List Call), k < m.entries.length → m.rrCursor + m.entries.length ≤ 2 ^ 64 →
      cs.countP Call.isTakeReady = m.entries.length →
      EverySplit (fun pre _ => SomeSplit (fun pre c => Grants (calls.run m pre).1 k c) pre ∨
        (calls.run m pre).1.ReadyAt k) cs →
      SomeSplit (fun pre c => Grants (calls.run m pre).1 k c) cs := by
  refine ⟨fun now => ?_, fun k cs hk hcursor hcount hready => granted_of_ready hk hcursor hcount hready⟩
  rcases m.takeReady_cases now with ⟨hall, hfails⟩ | hout
  · refine ⟨iff_of_true hfails hall, ?_⟩
    rintro ⟨e, he, hready⟩
    rw [hall e he] at hready
    cases hready
  · refine ⟨iff_of_false ?_ ?_, fun _ => hout⟩
    · rintro ⟨hnone, -⟩
      obtain ⟨k, e, bh, hout⟩ := hout
      rw [hout.returned] at hnone
      cases hnone
    · intro hall
      obtain ⟨k, e, bh, hout⟩ := hout
      have hidle := hall e (List.mem_of_getElem? hout.found)
      rw [hout.ready] at hidle
      cases hidle

/-- The cursor is at the other one of two nonces. -/
theorem take_ready_law_second_call :
    let m : NonceManager := ⟨[⟨1, 101, .ready 11⟩, ⟨2, 102, .ready 12⟩], 1⟩
    SomeSplit (fun pre c => Grants (calls.run m pre).1 0 c)
      [.takeReady 5, .access (.observedLanding 2 6), .takeReady 7] :=
  (take_ready_law ⟨[⟨1, 101, .ready 11⟩, ⟨2, 102, .ready 12⟩], 1⟩).2 0
    [.takeReady 5, .access (.observedLanding 2 6), .takeReady 7] (by decide) (by decide) (by decide)
    (((EverySplit.nil.snoc (Or.inr (by decide))).snoc (Or.inr (by decide))).snoc
      (Or.inr (by decide)))

end NonceManager
end SolanaBench.Nonce
