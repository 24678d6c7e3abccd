import Mathlib.Data.List.TakeWhile
import SolanaBench.TickTrigger.Merger

/-! The merger's dedup window. The map of keys and the index by slot mirror each other,
so a key leaves exactly when its slot expires, and what happens to a key at most once
happens at most once between two expiries. -/
namespace SolanaBench.TickTrigger

def MergedEntry.key (e : MergedEntry) : Merger.Key :=
  (e.observation.slot, e.observation.entryHash)

namespace Merger

abbrev Arrival := EntryObservation × SourceKind

def Arrival.key (i : Arrival) : Key := (i.1.slot, i.1.entryHash)

def Arrival.merged (i : Arrival) : MergedEntry := ⟨i.1, i.2⟩

def emitted (is : List Arrival) : List MergedEntry := Effect.sent (machine.run {} is).2

/-- The map does not have the arrival's key. -/
def Unseen (pre : List Arrival) (i : Arrival) : Prop := i.key ∉ (machine.run {} pre).1.state

instance (pre : List Arrival) (i : Arrival) : Decidable (Unseen pre i) :=
  inferInstanceAs (Decidable (i.key ∉ (machine.run {} pre).1.state))

def State.hashesOf (st : State) (slot : ℕ) : List Hash := (st.slotIndex.get? slot).getD []

/-- The index lists each key of the map under its slot, once. -/
structure Indexed (st : State) : Prop where
  mem_iff : ∀ key : Key, key ∈ st.state ↔ key.2 ∈ st.hashesOf key.1
  nodup : ∀ slot, (st.hashesOf slot).Nodup

/-- The arrival confirms its key. -/
def Confirms (pre : List Arrival) (i : Arrival) : Prop :=
  Effect.total .confirmedByBoth (machine.step (machine.run {} pre).1 i).2 ≠ 0

/-- One call emits the arrival itself or nothing. -/
theorem sent_step (st : State) (i : Arrival) :
    Effect.sent (machine.step st i).2 = if i.key ∈ st.state then [] else [i.merged] := by
  show Effect.sent (matchEntry st i.1 i.2).2 = _
  unfold matchEntry
  cases h : st.state.lookup (i.1.slot, i.1.entryHash) with
  | none =>
    have hnot : i.key ∉ st.state := AList.lookup_eq_none.mp h
    rw [if_neg hnot]
    simp only [h]
    rfl
  | some d =>
    have hin : i.key ∈ st.state := AList.lookup_isSome.mp (by
      show (st.state.lookup (i.1.slot, i.1.entryHash)).isSome
      rw [h]
      rfl)
    rw [if_pos hin]
    simp only [h]
    cases d with
    | primary firstSource firstSeenAt =>
      show Effect.sent (if firstSource ≠ i.2 then _ else _ : State × List Output).2 = []
      split <;> rfl
    | confirmed => rfl

theorem emitted_snoc (is : List Arrival) (i : Arrival) :
    emitted (is ++ [i]) = emitted is ++ if Unseen is i then [i.merged] else [] := by
  unfold emitted
  rw [EventMachine.run_snoc_snd, Effect.sent_append, sent_step]
  by_cases h : i.key ∈ (machine.run {} is).1.state
  · rw [if_pos h, if_neg (fun hf : Unseen is i => hf h)]
  · rw [if_neg h, if_pos (show Unseen is i from h)]

/-- The emitted entries are the first-seen arrivals. -/
theorem mem_emitted (is : List Arrival) (e : MergedEntry) :
    e ∈ emitted is ↔ SomeSplit (fun pre i => Unseen pre i ∧ e = i.merged) is := by
  induction is using List.reverseRecOn with
  | nil => exact ⟨fun h => absurd h List.not_mem_nil, fun h => absurd h SomeSplit.not_nil⟩
  | append_singleton is i ih =>
    rw [emitted_snoc, SomeSplit.snoc_iff, List.mem_append, ih]
    by_cases h : Unseen is i <;> simp [h]

/-! ## Expiry -/

theorem lookup_foldl_erase (slot : ℕ) (hashes : List Hash) (m : AList fun _ : Key => DedupState)
    (key : Key) : (hashes.foldl (fun m h => m.erase (slot, h)) m).lookup key =
      if key.1 = slot ∧ key.2 ∈ hashes then none else m.lookup key := by
  induction hashes generalizing m with
  | nil => simp
  | cons h hashes ih =>
    rw [List.foldl_cons, ih]
    by_cases hkey : key = (slot, h)
    · subst hkey
      simp
    · have hne : ¬(key.1 = slot ∧ key.2 = h) := fun hk => hkey (Prod.ext hk.1 hk.2)
      rw [AList.lookup_erase_ne hkey]
      by_cases hslot : key.1 = slot
      · have hhash : key.2 ≠ h := fun hh => hne ⟨hslot, hh⟩
        simp [hslot, hhash]
      · simp [hslot]

theorem hashesOf_expire (st : State) (s slot : ℕ) :
    (expire st s).hashesOf slot = if slot = s then [] else st.hashesOf slot := by
  unfold expire State.hashesOf
  cases hs : st.slotIndex.get? s with
  | none =>
    split_ifs with h
    · rw [h, hs]
      rfl
    · rfl
  | some hashes =>
    dsimp only
    rw [SortedMap.get?_erase]
    split_ifs <;> rfl

theorem lookup_expire {st : State} (h : Indexed st) (s : ℕ) (key : Key) :
    (expire st s).state.lookup key = if key.1 = s then none else st.state.lookup key := by
  have hmem := h.mem_iff key
  unfold expire
  unfold State.hashesOf at hmem
  cases hs : st.slotIndex.get? s with
  | none =>
    split_ifs with hkey
    · rw [hkey, hs] at hmem
      exact AList.lookup_eq_none.mpr fun hin => List.not_mem_nil (hmem.mp hin)
    · rfl
  | some hashes =>
    dsimp only
    rw [lookup_foldl_erase]
    by_cases hkey : key.1 = s
    · rw [hkey, hs] at hmem
      by_cases hin : key.2 ∈ hashes
      · simp [hkey, hin]
      · simp [hkey, hin, AList.lookup_eq_none.mpr fun hk => hin (hmem.mp hk)]
    · simp [hkey]

theorem Indexed.expire {st : State} (h : Indexed st) (s : ℕ) : Indexed (expire st s) where
  mem_iff key := by
    rw [← AList.lookup_isSome, lookup_expire h, hashesOf_expire]
    split_ifs
    · simp
    · rw [AList.lookup_isSome]
      exact h.mem_iff key
  nodup slot := by
    rw [hashesOf_expire]
    split_ifs
    · exact List.nodup_nil
    · exact h.nodup slot

/-- Expiring some slots removes their keys and leaves the others as they are. -/
theorem expireAll {st : State} (h : Indexed st) (slots : List ℕ) :
    Indexed (slots.foldl expire st) ∧ ∀ key, (slots.foldl expire st).state.lookup key =
      if key.1 ∈ slots then none else st.state.lookup key := by
  induction slots generalizing st with
  | nil => exact ⟨h, fun key => by simp⟩
  | cons s slots ih =>
    obtain ⟨hidx, hlookup⟩ := ih (h.expire s)
    refine ⟨hidx, fun key => ?_⟩
    rw [List.foldl_cons, hlookup, lookup_expire h]
    by_cases hs : key.1 = s <;> by_cases hmem : key.1 ∈ slots <;> simp [hs, hmem]

theorem mem_takeWhile_lt {l : List ℕ} (h : l.Pairwise (· < ·)) {c s : ℕ} :
    s ∈ l.takeWhile (fun s => decide (s < c)) ↔ s ∈ l ∧ s < c := by
  induction l with
  | nil => simp
  | cons x l ih =>
    obtain ⟨hx, hl⟩ := List.pairwise_cons.mp h
    by_cases hc : x < c
    · rw [List.takeWhile_cons_of_pos (by simpa using hc), List.mem_cons, List.mem_cons, ih hl]
      constructor
      · rintro (rfl | ⟨hs, hlt⟩)
        · exact ⟨Or.inl rfl, hc⟩
        · exact ⟨Or.inr hs, hlt⟩
      · rintro ⟨rfl | hs, hlt⟩
        · exact Or.inl rfl
        · exact Or.inr ⟨hs, hlt⟩
    · rw [List.takeWhile_cons_of_neg (by simpa using hc)]
      refine iff_of_false List.not_mem_nil ?_
      rintro ⟨hs, hlt⟩
      rcases List.mem_cons.mp hs with rfl | hs
      · exact hc hlt
      · exact hc ((hx s hs).trans hlt)

theorem maxSlot_foldl_expire (st : State) (slots : List ℕ) :
    (slots.foldl expire st).maxSlot = st.maxSlot := by
  refine List.foldlRecOn (motive := fun s : State => s.maxSlot = st.maxSlot) slots expire rfl ?_
  intro s hs slot _
  unfold expire
  split
  · exact hs
  · exact hs

/-- A slot above all before it evicts the keys more than a window behind it. -/
theorem evict_spec {st : State} (h : Indexed st) (slot : ℕ) :
    Indexed (evict st slot) ∧ (evict st slot).maxSlot = max st.maxSlot slot ∧
      ∀ key, (evict st slot).state.lookup key =
        if st.maxSlot < slot ∧ key.1 + DEDUP_WINDOW_SLOTS < slot then none
        else st.state.lookup key := by
  unfold evict
  by_cases hslot : slot > st.maxSlot
  · have hmax : Indexed { st with maxSlot := slot } := ⟨h.mem_iff, h.nodup⟩
    rw [if_pos hslot, max_eq_right hslot.le]
    dsimp only
    by_cases hwindow : slot > DEDUP_WINDOW_SLOTS
    · rw [if_pos hwindow]
      obtain ⟨hidx, hlookup⟩ := expireAll hmax (st.slotIndex.keys.takeWhile
        fun s => decide (s < slot - DEDUP_WINDOW_SLOTS))
      refine ⟨hidx, maxSlot_foldl_expire _ _, fun key => ?_⟩
      rw [hlookup]
      simp only [mem_takeWhile_lt SortedMap.keys_sorted]
      by_cases hfar : key.1 + DEDUP_WINDOW_SLOTS < slot
      · have hlt : key.1 < slot - DEDUP_WINDOW_SLOTS := by omega
        refine Eq.trans ?_ (if_pos ⟨hslot, hfar⟩).symm
        by_cases hin : key.1 ∈ st.slotIndex.keys
        · rw [if_pos ⟨hin, hlt⟩]
        · rw [if_neg fun hboth => hin hboth.1]
          refine AList.lookup_eq_none.mpr fun hmem => hin (SortedMap.mem_keys_iff.mpr ?_)
          have hhash := (h.mem_iff key).mp hmem
          unfold State.hashesOf at hhash
          cases hget : st.slotIndex.get? key.1 with
          | none => simp [hget] at hhash
          | some hashes => exact ⟨hashes, rfl⟩
      · have hnlt : ¬key.1 < slot - DEDUP_WINDOW_SLOTS := by omega
        rw [if_neg fun hboth => hnlt hboth.2, if_neg fun hboth => hfar hboth.2]
    · rw [if_neg hwindow]
      refine ⟨hmax, rfl, fun key => ?_⟩
      rw [if_neg fun hboth => hwindow (lt_of_le_of_lt (Nat.le_add_left _ _) hboth.2)]
  · rw [if_neg hslot]
    refine ⟨h, (max_eq_left (Nat.le_of_not_lt hslot)).symm, fun key => ?_⟩
    rw [if_neg fun hboth => hslot hboth.1]

/-! ## One arrival -/

/-- The three arms of the entry match. -/
theorem matchEntry_cases (st : State) (i : Arrival) :
    (i.key ∉ st.state ∧ matchEntry st i.1 i.2 =
      ({ st with
          state := st.state.insert i.key (.primary i.2 i.1.observedAt)
          slotIndex := st.slotIndex.insert i.1.slot (st.hashesOf i.1.slot ++ [i.1.entryHash]) },
        [.fetchAdd (firstCounter i.2) 1, .send i.merged])) ∨
    (∃ source seenAt deltaNs, st.state.lookup i.key = some (.primary source seenAt) ∧
      matchEntry st i.1 i.2 =
        ({ st with state := st.state.insert i.key .confirmed }, recordConfirmLatency deltaNs)) ∨
    (i.key ∈ st.state ∧ matchEntry st i.1 i.2 = (st, [.fetchAdd .duplicates 1])) := by
  unfold matchEntry
  dsimp only
  cases hlookup : st.state.lookup (i.1.slot, i.1.entryHash) with
  | none => exact Or.inl ⟨AList.lookup_eq_none.mp hlookup, rfl⟩
  | some d =>
    have hin : i.key ∈ st.state := AList.lookup_isSome.mp (by
      show (st.state.lookup (i.1.slot, i.1.entryHash)).isSome
      rw [hlookup]
      rfl)
    cases d with
    | primary source seenAt =>
      dsimp only
      by_cases hsource : source ≠ i.2
      · rw [if_pos hsource]
        exact Or.inr (Or.inl ⟨source, seenAt, _, hlookup, rfl⟩)
      · rw [if_neg hsource]
        exact Or.inr (Or.inr ⟨hin, rfl⟩)
    | confirmed => exact Or.inr (Or.inr ⟨hin, rfl⟩)

theorem Indexed.matchEntry {st : State} (h : Indexed st) (i : Arrival) :
    Indexed (matchEntry st i.1 i.2).1 := by
  rcases matchEntry_cases st i with ⟨hnew, heq⟩ | ⟨_, _, _, hlookup, heq⟩ | ⟨-, heq⟩
  · have hhashes : ∀ slot, (Merger.matchEntry st i.1 i.2).1.hashesOf slot =
        if slot = i.1.slot then st.hashesOf slot ++ [i.1.entryHash] else st.hashesOf slot := by
      intro slot
      rw [heq]
      unfold State.hashesOf
      rw [SortedMap.get?_insert]
      split_ifs with hslot
      · rw [hslot]
        rfl
      · rfl
    have hfresh : i.1.entryHash ∉ st.hashesOf i.1.slot := fun hin => hnew ((h.mem_iff i.key).mpr hin)
    constructor
    · intro key
      rw [hhashes, heq, AList.mem_insert, h.mem_iff key]
      by_cases hslot : key.1 = i.1.slot
      · have hkey : key = i.key ↔ key.2 = i.1.entryHash :=
          ⟨fun hk => hk ▸ rfl, fun hk => Prod.ext hslot hk⟩
        rw [if_pos hslot, hkey]
        simp [or_comm]
      · have hkey : key ≠ i.key := fun hk => hslot (hk ▸ rfl)
        simp [hslot, hkey]
    · intro slot
      rw [hhashes]
      split_ifs with hslot
      · subst hslot
        rw [List.nodup_append]
        refine ⟨h.nodup _, List.nodup_singleton _, fun a ha b hb hab => hfresh ?_⟩
        rw [← List.mem_singleton.mp hb, ← hab]
        exact ha
      · exact h.nodup slot
  · have hin : i.key ∈ st.state := AList.lookup_isSome.mp (by simp [hlookup])
    rw [heq]
    refine ⟨fun key => ?_, h.nodup⟩
    rw [AList.mem_insert, or_iff_right_of_imp (fun hkey : key = i.key => hkey ▸ hin)]
    exact h.mem_iff key
  · rw [heq]
    exact h

/-- The arrival raises the highest slot to more than a window above the key's. -/
def Evicts (key : Key) (maxSlot : ℕ) (i : Arrival) : Prop :=
  maxSlot < i.1.slot ∧ key.1 + DEDUP_WINDOW_SLOTS < i.1.slot

instance (key : Key) (maxSlot : ℕ) (i : Arrival) : Decidable (Evicts key maxSlot i) :=
  inferInstanceAs (Decidable (_ ∧ _))

theorem maxSlot_matchEntry (st : State) (i : Arrival) :
    (matchEntry st i.1 i.2).1.maxSlot = st.maxSlot := by
  rcases matchEntry_cases st i with ⟨-, heq⟩ | ⟨_, _, _, -, heq⟩ | ⟨-, heq⟩ <;> rw [heq]

theorem maxSlot_step {st : State} (h : Indexed st) (i : Arrival) :
    (machine.step st i).1.maxSlot = max st.maxSlot i.1.slot := by
  rw [← maxSlot_matchEntry st i]
  exact (evict_spec (h.matchEntry i) i.1.slot).2.1

/-- What one arrival does to the map: only its own key changes status, and those that it
evicts leave. -/
theorem lookup_step_eq {st : State} (h : Indexed st) (i : Arrival) (key : Key) :
    (machine.step st i).1.state.lookup key = if Evicts key st.maxSlot i then none
      else (matchEntry st i.1 i.2).1.state.lookup key := by
  rw [← maxSlot_matchEntry st i]
  exact (evict_spec (h.matchEntry i) i.1.slot).2.2 key

theorem lookup_step {st : State} (h : Indexed st) (i : Arrival) (key : Key) :
    (machine.step st i).1.state.lookup key = (matchEntry st i.1 i.2).1.state.lookup key ∨
      (machine.step st i).1.state.lookup key = none ∧ key.1 + DEDUP_WINDOW_SLOTS < i.1.slot := by
  rw [lookup_step_eq h]
  split_ifs with hev
  · exact Or.inr ⟨rfl, hev.2⟩
  · exact Or.inl rfl

theorem Indexed.step {st : State} (h : Indexed st) (i : Arrival) :
    Indexed (machine.step st i).1 :=
  (evict_spec (h.matchEntry i) i.1.slot).1

theorem Indexed.run {st : State} (h : Indexed st) (is : List Arrival) :
    Indexed (machine.run st is).1 :=
  machine.run_invariant Indexed h (fun _ i ht => ht.step i) is

theorem Indexed.empty : Indexed {} where
  mem_iff _ := by simp [State.hashesOf, AList.notMem_empty]
  nodup _ := by simp [State.hashesOf]

theorem mem_matchEntry {st : State} {key : Key} (hkey : key ∈ st.state) (i : Arrival) :
    key ∈ (matchEntry st i.1 i.2).1.state := by
  rcases matchEntry_cases st i with ⟨-, heq⟩ | ⟨_, _, _, -, heq⟩ | ⟨-, heq⟩
  · rw [heq]
    exact (AList.mem_insert _).mpr (Or.inr hkey)
  · rw [heq]
    exact (AList.mem_insert _).mpr (Or.inr hkey)
  · rw [heq]
    exact hkey

theorem key_mem_matchEntry (st : State) (i : Arrival) :
    i.key ∈ (matchEntry st i.1 i.2).1.state := by
  rcases matchEntry_cases st i with ⟨-, heq⟩ | ⟨_, _, _, -, heq⟩ | ⟨hin, heq⟩
  · rw [heq]
    exact (AList.mem_insert _).mpr (Or.inl rfl)
  · rw [heq]
    exact (AList.mem_insert _).mpr (Or.inl rfl)
  · rw [heq]
    exact hin

/-- A key in the map stays unless the arrival is more than a window ahead. -/
theorem mem_step {st : State} (h : Indexed st) {i : Arrival} {key : Key}
    (hkey : key ∈ (matchEntry st i.1 i.2).1.state)
    (hnear : i.1.slot ≤ key.1 + DEDUP_WINDOW_SLOTS) : key ∈ (machine.step st i).1.state := by
  rcases lookup_step h i key with heq | ⟨-, hfar⟩
  · rw [← AList.lookup_isSome, heq]
    exact AList.lookup_isSome.mpr hkey
  · omega

theorem mem_run {st : State} (h : Indexed st) {key : Key} (hkey : key ∈ st.state)
    {is : List Arrival} (hnear : ∀ i ∈ is, i.1.slot ≤ key.1 + DEDUP_WINDOW_SLOTS) :
    key ∈ (machine.run st is).1.state := by
  induction is generalizing st with
  | nil => exact hkey
  | cons i is ih =>
    have hi := mem_step h (mem_matchEntry hkey i) (hnear i List.mem_cons_self)
    exact ih (h.step i) hi fun j hj => hnear j (List.mem_cons_of_mem i hj)

/-- An arrival never expires its own key. -/
theorem key_mem_step {st : State} (h : Indexed st) (i : Arrival) :
    i.key ∈ (machine.step st i).1.state :=
  mem_step h (key_mem_matchEntry st i) (Nat.le_add_right _ _)

/-! ## Confirmation -/

/-- A confirmed key stays confirmed for as long as it stays. -/
theorem confirmed_step {st : State} (h : Indexed st) {key : Key}
    (hkey : st.state.lookup key = some .confirmed) (i : Arrival) :
    (machine.step st i).1.state.lookup key = some .confirmed ∨
      key ∉ (machine.step st i).1.state := by
  have hin : key ∈ st.state := AList.lookup_isSome.mp (by simp [hkey])
  rcases lookup_step h i key with heq | ⟨hnone, -⟩
  · rw [heq]
    left
    rcases matchEntry_cases st i with ⟨hnew, hmatch⟩ | ⟨_, _, _, -, hmatch⟩ | ⟨-, hmatch⟩
    · have hne : key ≠ i.key := fun hk => hnew (hk ▸ hin)
      rw [hmatch, AList.lookup_insert_ne hne]
      exact hkey
    · rw [hmatch]
      by_cases hk : key = i.key
      · rw [hk, AList.lookup_insert]
      · rw [AList.lookup_insert_ne hk]
        exact hkey
    · rw [hmatch]
      exact hkey
  · exact Or.inr (AList.lookup_eq_none.mp hnone)

theorem confirmed_run {st : State} (h : Indexed st) {key : Key}
    (hkey : st.state.lookup key = some .confirmed) (is : List Arrival) :
    (machine.run st is).1.state.lookup key = some .confirmed ∨
      ∃ pre post, is = pre ++ post ∧ key ∉ (machine.run st pre).1.state := by
  induction is generalizing st with
  | nil => exact Or.inl hkey
  | cons i is ih =>
    rcases confirmed_step h hkey i with hstill | hleft
    · rcases ih (h.step i) hstill with hend | ⟨pre, post, his, hleft⟩
      · exact Or.inl hend
      · exact Or.inr ⟨i :: pre, post, by rw [his]; rfl, hleft⟩
    · exact Or.inr ⟨[i], is, rfl, hleft⟩

theorem total_received (c : Counter) (i : Arrival) (os : List Output)
    (hc : c ≠ .ssReceived ∧ c ≠ .ysReceived) :
    Effect.total c (.fetchAdd (receivedCounter i.2) 1 :: os) = Effect.total c os := by
  cases hi : i.2 with
  | shredStream => simp [receivedCounter, hc.1.symm]
  | yellowstone => simp [receivedCounter, hc.2.symm]

/-- An arrival is counted as a confirmation when it finds its key seen by one source only, and
leaves it confirmed. -/
theorem confirms_step {st : State} (h : Indexed st) {i : Arrival}
    (hi : Effect.total .confirmedByBoth (machine.step st i).2 ≠ 0) :
    (∃ source seenAt, st.state.lookup i.key = some (.primary source seenAt)) ∧
      (machine.step st i).1.state.lookup i.key = some .confirmed := by
  have htotal : Effect.total .confirmedByBoth (machine.step st i).2 =
      Effect.total .confirmedByBoth (matchEntry st i.1 i.2).2 :=
    total_received _ i _ (by decide)
  rw [htotal] at hi
  rcases matchEntry_cases st i with ⟨-, hmatch⟩ | ⟨source, seenAt, _, hlookup, hmatch⟩ | ⟨-, hmatch⟩
  · rw [hmatch] at hi
    cases hs : i.2 <;> simp [hs, firstCounter] at hi
  · refine ⟨⟨source, seenAt, hlookup⟩, ?_⟩
    rcases lookup_step h i i.key with heq | ⟨-, hfar⟩
    · rw [heq, hmatch, AList.lookup_insert]
    · have hslot : i.key.1 = i.1.slot := rfl
      omega
  · rw [hmatch] at hi
    simp at hi

/-! ## The laws -/

/-- The merger counters over everything the loop has done. -/
def counted (is : List Arrival) (c : Counter) : ℕ := Effect.total c (machine.run {} is).2

/-- What the dedup window promises of a whole run. -/
structure DedupLaws (is : List Arrival) : Prop where
  /-- An arrival is emitted when its key is not in the map, and nothing else is. -/
  emits : EverySplit (fun pre (i : Arrival) => Effect.sent (machine.step (machine.run {} pre).1 i).2 =
    if i.key ∈ (machine.run {} pre).1.state then [] else [i.merged]) is
  /-- Between two emissions of one key a slot beyond its window arrives. -/
  reemits : ∀ (pre : List Arrival) (i : Arrival) mid (j : Arrival) post,
    is = pre ++ i :: (mid ++ j :: post) → i.key = j.key →
    Effect.sent (machine.step (machine.run {} pre).1 i).2 ≠ [] →
    Effect.sent (machine.step (machine.run {} (pre ++ i :: mid)).1 j).2 ≠ [] →
    ∃ a ∈ mid, a.1.slot > i.key.1 + DEDUP_WINDOW_SLOTS
  indexed : Indexed (machine.run {} is).1
  /-- Between two confirmations of one key it has left the map. -/
  confirmsOnce : ∀ (pre : List Arrival) (i : Arrival) mid (j : Arrival) post,
    is = pre ++ i :: (mid ++ j :: post) → i.key = j.key →
    Confirms pre i → Confirms (pre ++ i :: mid) j →
    ∃ mid' mid'', mid = mid' ++ mid'' ∧ i.key ∉ (machine.run {} (pre ++ i :: mid')).1.state
  accounted : counted is .ssReceived + counted is .ysReceived =
    counted is .ssFirst + counted is .ysFirst + counted is .confirmedByBoth +
      counted is .duplicates

theorem indexed_run (is : List Arrival) : Indexed (machine.run {} is).1 := Indexed.empty.run is

theorem not_mem_of_sent {st : State} {i : Arrival} (h : Effect.sent (machine.step st i).2 ≠ []) :
    i.key ∉ st.state := by
  intro hin
  rw [sent_step, if_pos hin] at h
  exact h rfl

theorem reemits_run (pre : List Arrival) (i : Arrival) (mid : List Arrival) (j : Arrival)
    (hkey : i.key = j.key)
    (hj : Effect.sent (machine.step (machine.run {} (pre ++ i :: mid)).1 j).2 ≠ []) :
    ∃ a ∈ mid, a.1.slot > i.key.1 + DEDUP_WINDOW_SLOTS := by
  by_contra hnear
  push Not at hnear
  have hout := not_mem_of_sent hj
  rw [EventMachine.run_append_fst, EventMachine.run_cons_fst, ← hkey] at hout
  exact hout (mem_run ((indexed_run pre).step i) (key_mem_step (indexed_run pre) i) hnear)

theorem confirmsOnce_run (pre : List Arrival) (i : Arrival) (mid : List Arrival) (j : Arrival)
    (hkey : i.key = j.key) (hi : Confirms pre i) (hj : Confirms (pre ++ i :: mid) j) :
    ∃ mid' mid'', mid = mid' ++ mid'' ∧ i.key ∉ (machine.run {} (pre ++ i :: mid')).1.state := by
  have hconfirmed := (confirms_step (indexed_run pre) hi).2
  obtain ⟨source, seenAt, hprimary⟩ := (confirms_step (indexed_run (pre ++ i :: mid)) hj).1
  rcases confirmed_run ((indexed_run pre).step i) hconfirmed mid with hstill | ⟨m, m', hmid, hleft⟩
  · rw [EventMachine.run_append_fst, EventMachine.run_cons_fst, ← hkey, hstill] at hprimary
    cases hprimary
  · refine ⟨m, m', hmid, ?_⟩
    rw [EventMachine.run_append_fst, EventMachine.run_cons_fst]
    exact hleft

/-- One call counts one received entry, and one of the four things it can be. -/
theorem accounted_step (st : State) (i : Arrival) :
    Effect.total .ssReceived (machine.step st i).2 +
        Effect.total .ysReceived (machine.step st i).2 =
      Effect.total .ssFirst (machine.step st i).2 + Effect.total .ysFirst (machine.step st i).2 +
        Effect.total .confirmedByBoth (machine.step st i).2 +
        Effect.total .duplicates (machine.step st i).2 := by
  have hout : (machine.step st i).2 =
      .fetchAdd (receivedCounter i.2) 1 :: (matchEntry st i.1 i.2).2 := rfl
  rw [hout]
  rcases matchEntry_cases st i with ⟨-, hmatch⟩ | ⟨_, _, _, -, hmatch⟩ | ⟨-, hmatch⟩ <;>
    rw [hmatch] <;> cases i.2 <;>
    simp [receivedCounter, firstCounter, recordConfirmLatency]

theorem accounted_run (is : List Arrival) : counted is .ssReceived + counted is .ysReceived =
    counted is .ssFirst + counted is .ysFirst + counted is .confirmedByBoth +
      counted is .duplicates := by
  induction is using List.reverseRecOn with
  | nil => rfl
  | append_singleton is i ih =>
    have hi := accounted_step (machine.run {} is).1 i
    unfold counted at ih ⊢
    simp only [EventMachine.run_snoc_snd, Effect.total_append]
    omega

/-- The merger emits a key once per window and mirrors its map in the slot index, and its
counters balance. -/
theorem dedup_laws (is : List Arrival) : DedupLaws is where
  emits pre i _ _ := sent_step (machine.run {} pre).1 i
  reemits pre i mid j _ _ hkey _ hj := reemits_run pre i mid j hkey hj
  indexed := indexed_run is
  confirmsOnce pre i mid j _ _ := confirmsOnce_run pre i mid j
  accounted := accounted_run is

end Merger
end SolanaBench.TickTrigger
