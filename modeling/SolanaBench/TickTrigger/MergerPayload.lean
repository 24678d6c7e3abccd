import SolanaBench.TickTrigger.MergerDedup

/-! Which signatures survive the merger. The emitted copy of an entry is the
winner's, so a signature gets through exactly when a ShredStream copy that
carries it is first-seen. -/
namespace SolanaBench.TickTrigger
namespace Merger

/-- The Yellowstone channel holds decoded entry updates. -/
def FromSources (is : List Arrival) : Prop :=
  ∀ i ∈ is, i.2 = .yellowstone → ∃ e t, i.1 = Yellowstone.decodeEntry e t

/-- The arrival is higher than all before it, and more than a window above the key's slot. -/
def Overtakes (key : Key) (pre : List Arrival) (i : Arrival) : Prop :=
  (∀ j ∈ pre, j.1.slot < i.1.slot) ∧ key.1 + DEDUP_WINDOW_SLOTS < i.1.slot

/-- A copy of the entry came, and no arrival after it has overtaken its slot. -/
def Recent (key : Key) (is : List Arrival) : Prop :=
  ∃ pre j post, is = pre ++ j :: post ∧ j.key = key ∧
    EverySplit (fun mid e => ¬Overtakes key (pre ++ j :: mid) e) post

/-- The arrival is the first copy of its entry, since its slot was last overtaken. -/
def FirstSeen (pre : List Arrival) (i : Arrival) : Prop := ¬Recent i.key pre

/-- A received copy of the entry carries the signature. -/
def Received (is : List Arrival) (key : Key) (sig : Signature) : Prop :=
  ∃ i ∈ is, i.key = key ∧ sig ∈ i.1.signatures

/-- An emitted copy of the entry carries the signature. -/
def Carried (is : List Arrival) (key : Key) (sig : Signature) : Prop :=
  ∃ e ∈ emitted is, e.key = key ∧ sig ∈ e.observation.signatures

/-- All ShredStream copies of the entry hold the same transactions. -/
def ShredStreamAgrees (is : List Arrival) (key : Key) : Prop :=
  ∀ i ∈ is, ∀ j ∈ is, i.key = key → j.key = key → i.2 = .shredStream → j.2 = .shredStream →
    i.1.signatures = j.1.signatures

/-- The ShredStream copy wins a race for the entry. -/
def ShredStreamFirst (key : Key) (pre : List Arrival) (i : Arrival) : Prop :=
  FirstSeen pre i ∧ i.key = key ∧ i.2 = .shredStream

/-! ## First seen -/

theorem mem_matchEntry_iff (st : State) (i : Arrival) (key : Key) :
    key ∈ (matchEntry st i.1 i.2).1.state ↔ key ∈ st.state ∨ i.key = key := by
  constructor
  · intro h
    rcases matchEntry_cases st i with ⟨-, heq⟩ | ⟨_, _, _, -, heq⟩ | ⟨-, heq⟩
    · rw [heq] at h
      exact ((AList.mem_insert _).mp h).elim (fun hk => Or.inr hk.symm) Or.inl
    · rw [heq] at h
      exact ((AList.mem_insert _).mp h).elim (fun hk => Or.inr hk.symm) Or.inl
    · rw [heq] at h
      exact Or.inl h
  · rintro (h | rfl)
    · exact mem_matchEntry h i
    · exact key_mem_matchEntry st i

theorem maxSlot_run_lt_iff (is : List Arrival) {n : ℕ} (hn : 0 < n) :
    (machine.run {} is).1.maxSlot < n ↔ ∀ j ∈ is, j.1.slot < n := by
  induction is using List.reverseRecOn with
  | nil => simpa using hn
  | append_singleton is i ih =>
    rw [EventMachine.run_snoc_fst, maxSlot_step (indexed_run is), max_lt_iff, ih,
      List.forall_mem_append, List.forall_mem_singleton]

theorem evicts_iff_overtakes (key : Key) (is : List Arrival) (i : Arrival) :
    Evicts key (machine.run {} is).1.maxSlot i ↔ Overtakes key is i := by
  refine and_congr_left fun hfar => maxSlot_run_lt_iff is ?_
  exact lt_of_le_of_lt (Nat.zero_le _) hfar

theorem not_overtakes_self (is : List Arrival) (i : Arrival) : ¬Overtakes i.key is i := by
  rintro ⟨-, hfar⟩
  have hslot : i.key.1 = i.1.slot := rfl
  omega

theorem recent_snoc_iff (key : Key) (is : List Arrival) (i : Arrival) :
    Recent key (is ++ [i]) ↔ (Recent key is ∨ i.key = key) ∧ ¬Overtakes key is i := by
  constructor
  · rintro ⟨pre, j, post, hsplit, rfl, hstay⟩
    rcases List.eq_nil_or_concat post with rfl | ⟨post, e, rfl⟩
    · obtain ⟨rfl, hij⟩ := List.append_inj' hsplit rfl
      obtain rfl := List.singleton_inj.mp hij
      exact ⟨Or.inr rfl, not_overtakes_self is i⟩
    · have hassoc : is ++ [i] = (pre ++ j :: post) ++ [e] := by simp [hsplit]
      obtain ⟨rfl, hie⟩ := List.append_inj' hassoc rfl
      obtain rfl := List.singleton_inj.mp hie
      rw [List.concat_eq_append] at hstay
      obtain ⟨hstay, hlast⟩ := EverySplit.snoc_iff.mp hstay
      exact ⟨Or.inl ⟨pre, j, post, rfl, rfl, hstay⟩, hlast⟩
  · rintro ⟨⟨pre, j, post, rfl, hkey, hstay⟩ | rfl, hlast⟩
    · exact ⟨pre, j, post ++ [i], by simp, hkey, hstay.snoc hlast⟩
    · exact ⟨is, i, [], rfl, rfl, EverySplit.nil⟩

/-- The map has the keys that came and were not overtaken since. -/
theorem mem_state_iff_recent (is : List Arrival) (key : Key) :
    key ∈ (machine.run {} is).1.state ↔ Recent key is := by
  induction is using List.reverseRecOn with
  | nil =>
    refine iff_of_false (AList.notMem_empty key) ?_
    rintro ⟨pre, j, post, hsplit, -⟩
    simp at hsplit
  | append_singleton is i ih =>
    have hstep := lookup_step_eq (indexed_run is) i key
    rw [recent_snoc_iff, ← ih, ← mem_matchEntry_iff, ← evicts_iff_overtakes,
      EventMachine.run_snoc_fst, ← AList.lookup_isSome, hstep]
    split_ifs with hev
    · simp [hev]
    · simp [hev, AList.lookup_isSome]

theorem unseen_iff_firstSeen (pre : List Arrival) (i : Arrival) :
    Unseen pre i ↔ FirstSeen pre i := not_congr (mem_state_iff_recent pre i.key)

/-! ## The payload -/

theorem FromSources.shredStream {is : List Arrival} (h : FromSources is) {i : Arrival}
    (hi : i ∈ is) {sig : Signature} (hs : sig ∈ i.1.signatures) : i.2 = .shredStream := by
  cases hsrc : i.2 with
  | shredStream => rfl
  | yellowstone =>
    obtain ⟨e, t, hd⟩ := h i hi hsrc
    rw [hd, Yellowstone.decodeEntry_signatures] at hs
    cases hs

/-- A signature is carried iff some ShredStream copy holding it wins its race. -/
theorem carried_iff {is : List Arrival} (h : FromSources is) (key : Key) (sig : Signature) :
    Carried is key sig ↔
      SomeSplit (fun pre i => ShredStreamFirst key pre i ∧ sig ∈ i.1.signatures) is := by
  constructor
  · rintro ⟨e, he, hk, hs⟩
    obtain ⟨pre, i, post, his, hunseen, rfl⟩ := (mem_emitted is e).mp he
    have hi : i ∈ is := by simp [his]
    have hfirst := (unseen_iff_firstSeen pre i).mp hunseen
    exact ⟨pre, i, post, his, ⟨hfirst, hk, h.shredStream hi hs⟩, hs⟩
  · rintro ⟨pre, i, post, his, ⟨hfirst, hk, -⟩, hs⟩
    have hunseen := (unseen_iff_firstSeen pre i).mpr hfirst
    exact ⟨i.merged, (mem_emitted is _).mpr ⟨pre, i, post, his, hunseen, rfl⟩, hk, hs⟩

/-- With one transaction list per entry, either all of it is carried or none. -/
theorem all_carried_iff {is : List Arrival} (h : FromSources is) {key : Key}
    (hagree : ShredStreamAgrees is key) :
    (∀ sig, Received is key sig → Carried is key sig) ↔
      (∀ sig, ¬Received is key sig) ∨ SomeSplit (ShredStreamFirst key) is := by
  constructor
  · intro hall
    by_cases hnone : ∀ sig, ¬Received is key sig
    · exact Or.inl hnone
    · obtain ⟨sig, hsig⟩ := not_forall_not.mp hnone
      obtain ⟨pre, i, post, his, hfirst, -⟩ := (carried_iff h key sig).mp (hall sig hsig)
      exact Or.inr ⟨pre, i, post, his, hfirst⟩
  · rintro (hnone | ⟨pre, i, post, his, hfirst⟩) sig hsig
    · exact absurd hsig (hnone sig)
    · obtain ⟨j, hj, hjk, hjs⟩ := hsig
      have hi : i ∈ is := by simp [his]
      have hsame : j.1.signatures = i.1.signatures :=
        hagree j hj i hi hjk hfirst.2.1 (h.shredStream hj hjs) hfirst.2.2
      rw [hsame] at hjs
      exact (carried_iff h key sig).mpr ⟨pre, i, post, his, hfirst, hjs⟩

/-- No signature is lost iff of each one some ShredStream copy that holds it is first-seen. Where
the ShredStream copies of an entry agree, one of them has to be. -/
theorem payload_kept_iff {is : List Arrival} (h : FromSources is) :
    ((∀ key sig, Received is key sig → Carried is key sig) ↔
      ∀ i ∈ is, ∀ sig ∈ i.1.signatures,
        SomeSplit (fun pre j => ShredStreamFirst i.key pre j ∧ sig ∈ j.1.signatures) is) ∧
    ∀ key, ShredStreamAgrees is key → ((∀ sig, Received is key sig → Carried is key sig) ↔
      (∀ sig, ¬Received is key sig) ∨ SomeSplit (ShredStreamFirst key) is) := by
  refine ⟨⟨fun hall i hi sig hsig => ?_, ?_⟩, fun key => all_carried_iff h⟩
  · exact (carried_iff h i.key sig).mp (hall i.key sig ⟨i, hi, rfl, hsig⟩)
  · rintro hfirst key sig ⟨i, hi, rfl, hsig⟩
    exact (carried_iff h i.key sig).mpr (hfirst i hi sig hsig)

/-! One entry with one transaction, seen by both sources. -/

def sampleUpdate : Yellowstone.SubscribeUpdateEntry := ⟨7, 0, 1, List.replicate 32 1, 1⟩

def ysCopy : Arrival := (Yellowstone.decodeEntry sampleUpdate 10, .yellowstone)

def ssCopy : Arrival :=
  ({ ysCopy.1 with source := .shredStream, observedAt := 12, signatures := [42] }, .shredStream)

theorem fromSources_sample (is : List Arrival) (h : ∀ i ∈ is, i = ysCopy ∨ i = ssCopy) :
    FromSources is := by
  intro i hi hs
  rcases h i hi with rfl | rfl
  · exact ⟨sampleUpdate, 10, rfl⟩
  · cases hs

theorem firstSeen_nil (i : Arrival) : FirstSeen [] i := by
  rintro ⟨pre, j, post, hsplit, -⟩
  simp at hsplit

theorem payload_kept_iff_shredStream :
    Received [ssCopy, ysCopy] ssCopy.key 42 ∧ Carried [ssCopy, ysCopy] ssCopy.key 42 := by
  have hreceived : Received [ssCopy, ysCopy] ssCopy.key 42 := ⟨ssCopy, by simp, rfl, by decide⟩
  refine ⟨hreceived, (payload_kept_iff (fromSources_sample _ (by simp))).1.mpr ?_ _ 42 hreceived⟩
  intro i hi sig hsig
  rcases List.mem_pair.mp hi with rfl | rfl
  · exact ⟨[], ssCopy, [ysCopy], rfl, ⟨firstSeen_nil ssCopy, rfl, rfl⟩, hsig⟩
  · exact absurd hsig List.not_mem_nil

/-- Yellowstone wins the race, and the signature of the ShredStream copy is lost. -/
theorem late_payload_lost :
    FromSources [ysCopy, ssCopy] ∧ Received [ysCopy, ssCopy] ssCopy.key 42 ∧
      ¬Carried [ysCopy, ssCopy] ssCopy.key 42 := by
  refine ⟨fromSources_sample _ (by simp), ⟨ssCopy, by simp, rfl, by decide⟩, ?_⟩
  rintro ⟨e, he, -, hs⟩
  have hemitted : emitted [ysCopy, ssCopy] = [ysCopy.merged] := by decide +kernel
  rw [hemitted, List.mem_singleton] at he
  rw [he] at hs
  exact List.not_mem_nil hs

end Merger
end SolanaBench.TickTrigger
