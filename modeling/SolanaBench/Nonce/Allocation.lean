import Mathlib.Data.List.Nodup
import SolanaBench.Nonce.Manager

/-! Allocation of nonces: a nonce that was handed out is not handed out again before
an operation released it, and the hash handed out is the last one stored. -/
namespace SolanaBench.Nonce
namespace NonceManager

/-- Ids and pubkeys identify entries. -/
structure Distinct (m : NonceManager) : Prop where
  ids : (m.entries.map NonceEntry.id).Nodup
  pubkeys : (m.entries.map NonceEntry.pubkey).Nodup

theorem Distinct.index_of_id {m : NonceManager} (hd : m.Distinct) {i j : ℕ} {e f : NonceEntry}
    (he : m.entries[i]? = some e) (hf : m.entries[j]? = some f) (h : e.id = f.id) : i = j := by
  obtain ⟨hlt, -⟩ := List.getElem?_eq_some_iff.mp he
  refine (List.getElem?_inj (l := m.entries.map NonceEntry.id) (by simpa using hlt) hd.ids).mp ?_
  rw [List.getElem?_map, List.getElem?_map, he, hf, Option.map_some, Option.map_some, h]

theorem Distinct.index_of_pubkey {m : NonceManager} (hd : m.Distinct) {i j : ℕ} {e f : NonceEntry}
    (he : m.entries[i]? = some e) (hf : m.entries[j]? = some f) (h : e.pubkey = f.pubkey) :
    i = j := by
  obtain ⟨hlt, -⟩ := List.getElem?_eq_some_iff.mp he
  refine (List.getElem?_inj (l := m.entries.map NonceEntry.pubkey) (by simpa using hlt)
    hd.pubkeys).mp ?_
  rw [List.getElem?_map, List.getElem?_map, he, hf, Option.map_some, Option.map_some, h]

theorem idIndex_sound {m : NonceManager} {id : NonceId} {k : ℕ} (h : m.idIndex id = some k) :
    ∃ e, m.entries[k]? = some e ∧ e.id = id := by
  obtain ⟨hlt, hid, -⟩ := List.findIdx?_eq_some_iff_getElem.mp h
  exact ⟨m.entries[k], List.getElem?_eq_getElem hlt, by simpa using hid⟩

theorem pubkeyIndex_sound {m : NonceManager} {pk : Pubkey} {k : ℕ} (h : m.pubkeyIndex pk = some k) :
    ∃ e, m.entries[k]? = some e ∧ e.pubkey = pk := by
  obtain ⟨⟨e, j⟩, hf, rfl⟩ := Option.map_eq_some_iff.mp h
  have hmem := List.mem_reverse.mp (List.mem_of_find?_eq_some hf)
  have hpk := List.find?_some hf
  exact ⟨e, List.mem_zipIdx_iff_getElem?.mp hmem, by simpa using hpk⟩

theorem id_of_idIndex {m : NonceManager} {id : NonceId} {k : ℕ} {e : NonceEntry}
    (h : m.idIndex id = some k) (he : m.entries[k]? = some e) : e.id = id := by
  obtain ⟨f, hf, hid⟩ := idIndex_sound h
  rw [he] at hf
  rw [Option.some.inj hf, hid]

theorem pubkey_of_pubkeyIndex {m : NonceManager} {pk : Pubkey} {k : ℕ} {e : NonceEntry}
    (h : m.pubkeyIndex pk = some k) (he : m.entries[k]? = some e) : e.pubkey = pk := by
  obtain ⟨f, hf, hpk⟩ := pubkeyIndex_sound h
  rw [he] at hf
  rw [Option.some.inj hf, hpk]

/-- What is asked of the entries with the id of `e` is asked of `e`. -/
theorem Distinct.exists_id_iff {m : NonceManager} (hd : m.Distinct) {k : ℕ} {e : NonceEntry}
    (he : m.entries[k]? = some e) {p : NonceEntry → Prop} :
    (∃ f ∈ m.entries, f.id = e.id ∧ p f) ↔ p e := by
  constructor
  · rintro ⟨f, hf, hid, hp⟩
    obtain ⟨j, hj⟩ := List.getElem?_of_mem hf
    rw [hd.index_of_id hj he hid, he] at hj
    rw [Option.some.inj hj]
    exact hp
  · exact fun hp => ⟨e, List.mem_of_getElem? he, rfl, hp⟩

theorem Distinct.idIndex_iff {m : NonceManager} (hd : m.Distinct) {id : NonceId} {k : ℕ} :
    m.idIndex id = some k ↔ ∃ e, m.entries[k]? = some e ∧ e.id = id := by
  refine ⟨idIndex_sound, ?_⟩
  rintro ⟨e, he, hid⟩
  cases h : m.idIndex id with
  | none =>
    have hno := List.findIdx?_eq_none_iff.mp h e (List.mem_of_getElem? he)
    simp [hid] at hno
  | some j =>
    obtain ⟨f, hf, hfid⟩ := idIndex_sound h
    rw [hd.index_of_id hf he (hfid.trans hid.symm)]

theorem Distinct.pubkeyIndex_iff {m : NonceManager} (hd : m.Distinct) {pk : Pubkey} {k : ℕ} :
    m.pubkeyIndex pk = some k ↔ ∃ e, m.entries[k]? = some e ∧ e.pubkey = pk := by
  refine ⟨pubkeyIndex_sound, ?_⟩
  rintro ⟨e, he, hpk⟩
  cases h : m.pubkeyIndex pk with
  | none =>
    have hno := List.find?_eq_none.mp (Option.map_eq_none_iff.mp h) (e, k)
      (List.mem_reverse.mpr (List.mem_zipIdx_iff_getElem?.mpr he))
    simp [hpk] at hno
  | some j =>
    obtain ⟨f, hf, hfpk⟩ := pubkeyIndex_sound h
    rw [hd.index_of_pubkey hf he (hfpk.trans hpk.symm)]

/-! ## One access -/

/-- An access changes the state of the entry it locks and nothing else. -/
theorem getElem?_step (m : NonceManager) (a : Action) (k : ℕ) :
    (m.step a).1.entries[k]? = m.entries[k]?.map fun e =>
      if m.target a = some k then { e with state := a.apply e.state } else e := by
  unfold step
  cases ht : m.target a with
  | none => simp
  | some idx =>
    cases he : m.entries[idx]? with
    | none =>
      by_cases hk : idx = k
      · simp [← hk, he]
      · simp [hk, he]
    | some e =>
      by_cases hk : idx = k
      · simp [← hk, he, setState]
      · simp [hk, he, setState]

theorem getElem?_step_of_target {m : NonceManager} {a : Action} {k : ℕ} {e : NonceEntry}
    (ht : m.target a = some k) (he : m.entries[k]? = some e) :
    (m.step a).1.entries[k]? = some { e with state := a.apply e.state } := by
  rw [getElem?_step, he, Option.map_some, if_pos ht]

theorem getElem?_step_of_ne {m : NonceManager} {a : Action} {k : ℕ} (ht : m.target a ≠ some k) :
    (m.step a).1.entries[k]? = m.entries[k]? := by
  rw [getElem?_step]
  simp [ht]

theorem mem_entries_step {m : NonceManager} {a : Action} {e' : NonceEntry}
    (h : e' ∈ (m.step a).1.entries) : ∃ k e, m.entries[k]? = some e ∧
      e' = if m.target a = some k then { e with state := a.apply e.state } else e := by
  obtain ⟨k, hk⟩ := List.mem_iff_getElem?.mp h
  rw [getElem?_step] at hk
  obtain ⟨e, he, rfl⟩ := Option.map_eq_some_iff.mp hk
  exact ⟨k, e, he, rfl⟩

/-- Whatever depends on ids and pubkeys only is the same after an access. -/
theorem map_entries_step {α : Type*} {g : NonceEntry → α}
    (hg : ∀ e s, g { e with state := s } = g e) (m : NonceManager) (a : Action) :
    (m.step a).1.entries.map g = m.entries.map g := by
  refine List.ext_getElem? fun k => ?_
  rw [List.getElem?_map, List.getElem?_map, getElem?_step, Option.map_map]
  congr 1
  funext e
  simp only [Function.comp_apply]
  split_ifs
  · exact hg e _
  · rfl

theorem Distinct.step {m : NonceManager} (hd : m.Distinct) (a : Action) : (m.step a).1.Distinct where
  ids := by
    rw [map_entries_step (fun _ _ => rfl)]
    exact hd.ids
  pubkeys := by
    rw [map_entries_step (fun _ _ => rfl)]
    exact hd.pubkeys

theorem Distinct.run {m : NonceManager} (hd : m.Distinct) (acts : List Action) :
    (machine.run m acts).1.Distinct :=
  machine.run_invariant Distinct hd (fun _ a h => h.step a) acts

/-- Only a probe of a ready entry returns a nonce, and it returns that entry's. -/
theorem mem_step_taken {m : NonceManager} {a : Action} {t : NonceId × Pubkey × Hash}
    (h : t ∈ (m.step a).2) :
    ∃ k now e bh, a = .probe k now ∧ m.entries[k]? = some e ∧ e.state = .ready bh ∧
      t = (e.id, e.pubkey, bh) := by
  unfold NonceManager.step at h
  cases a with
  | probe k now =>
    cases he : m.entries[k]? with
    | none => simp [target, he] at h
    | some e =>
      cases hs : e.state with
      | ready bh =>
        refine ⟨k, now, e, bh, rfl, he, hs, ?_⟩
        simpa [target, he, Action.taken, hs, NonceState.take] using h
      | inFlight bh since => simp [target, he, Action.taken, hs, NonceState.take] at h
      | awaitingUpdate bh since => simp [target, he, Action.taken, hs, NonceState.take] at h
      | stale bh since => simp [target, he, Action.taken, hs, NonceState.take] at h
  | _ => split at h <;> (try split at h) <;> simp [Action.taken] at h

/-! ## Releasing and storing -/

/-- The action `a`, taken in `m`, releases the nonce `id`: an account update with a hash
other than the cached one, a landing with a blockhash, a restore, or a refresh while stale. -/
def Releases (m : NonceManager) (id : NonceId) : Action → Prop
  | .accountUpdate pk new => ∃ e ∈ m.entries, e.id = id ∧ e.pubkey = pk ∧ e.state.blockhash ≠ new
  | .landingWithBlockhash id' _ => id' = id
  | .restoreUnchanged id' => id' = id
  | .fallbackRefresh pk _ => ∃ e ∈ m.entries, e.id = id ∧ e.pubkey = pk ∧ e.state.isStale = true
  | _ => False

/-- The hash that `a`, taken in `m`, stores for the nonce `id`, if it stores one. -/
def stores (m : NonceManager) (id : NonceId) : Action → Option Hash
  | .accountUpdate pk new =>
    if ∃ e ∈ m.entries, e.id = id ∧ e.pubkey = pk ∧ e.state.blockhash ≠ new then some new else none
  | .landingWithBlockhash id' new => if id' = id then some new else none
  | .fallbackRefresh pk observed =>
    if ∃ e ∈ m.entries, e.id = id ∧ e.pubkey = pk ∧ e.state.isStale = true then some observed
    else none
  | _ => none

/-- The last hash stored for `id` in the run of `acts` from `m`, `initial` if none was. -/
def lastStored (id : NonceId) : NonceManager → List Action → Hash → Hash
  | _, [], initial => initial
  | m, a :: acts, initial => lastStored id (m.step a).1 acts ((m.stores id a).getD initial)

/-- The entry at `k` is taken: it cannot be handed out. -/
def Held (m : NonceManager) (k : ℕ) (id : NonceId) : Prop :=
  ∃ e, m.entries[k]? = some e ∧ e.id = id ∧ e.state.isReady = false

/-- The step lemma: only a releasing action makes a taken entry ready. -/
theorem Held.step {m : NonceManager} {k : ℕ} {id : NonceId} (h : m.Held k id) {a : Action}
    (hno : ¬m.Releases id a) : (m.step a).1.Held k id := by
  obtain ⟨e, he, rfl, hr⟩ := h
  have hmem := List.mem_of_getElem? he
  by_cases ht : m.target a = some k
  · refine ⟨_, getElem?_step_of_target ht he, rfl, ?_⟩
    cases a with
    | probe idx now => rw [Action.apply, NonceState.take_of_not_ready hr, hr]
    | observedLanding id now =>
      refine Bool.eq_false_iff.mpr fun hready => ?_
      exact Bool.eq_false_iff.mp hr (NonceState.isReady_of_observedLanding hready)
    | timeout idx d d' now =>
      refine Bool.eq_false_iff.mpr fun hready => ?_
      exact Bool.eq_false_iff.mp hr (NonceState.isReady_of_timeout hready)
    | accountUpdate pk new =>
      have hsame : e.state.blockhash = new := by
        by_contra hne
        exact hno ⟨e, hmem, rfl, pubkey_of_pubkeyIndex ht he, hne⟩
      simpa [Action.apply, NonceState.accountUpdate, hsame] using hr
    | landingWithBlockhash id new => exact absurd (id_of_idIndex ht he).symm hno
    | restoreUnchanged id => exact absurd (id_of_idIndex ht he).symm hno
    | fallbackRefresh pk observed =>
      have hstale : e.state.isStale = false :=
        Bool.eq_false_iff.mpr fun hs => hno ⟨e, hmem, rfl, pubkey_of_pubkeyIndex ht he, hs⟩
      rw [Action.apply, NonceState.fallbackRefresh_of_not_stale hstale, hr]
  · rw [Held, getElem?_step_of_ne ht]
    exact ⟨e, he, rfl, hr⟩

/-- Along a run without releasing actions a taken entry stays taken. -/
theorem Held.run {m : NonceManager} {k : ℕ} {id : NonceId} (h : m.Held k id) {acts : List Action}
    (hno : machine.Along (fun m a => ¬m.Releases id a) m acts) :
    (machine.run m acts).1.Held k id :=
  EventMachine.along_rule (fun m a => ¬Releases m id a) (fun _ m _ => m.Held k id) h
    (fun _ _ _ _ hr hh => hh.step hr) hno

/-- An action on another entry stores nothing for this one. -/
theorem stores_of_untargeted {m : NonceManager} (hd : m.Distinct) {k : ℕ} {e : NonceEntry}
    (he : m.entries[k]? = some e) {a : Action} (ht : m.target a ≠ some k) :
    m.stores e.id a = none := by
  cases a with
  | accountUpdate pk new =>
    refine if_neg fun h => ht ?_
    exact hd.pubkeyIndex_iff.mpr ⟨e, he, ((hd.exists_id_iff he).mp h).1⟩
  | fallbackRefresh pk observed =>
    refine if_neg fun h => ht ?_
    exact hd.pubkeyIndex_iff.mpr ⟨e, he, ((hd.exists_id_iff he).mp h).1⟩
  | landingWithBlockhash id new =>
    refine if_neg fun h => ht ?_
    exact hd.idIndex_iff.mpr ⟨e, he, h.symm⟩
  | _ => rfl

/-- On its own entry an action leaves the hash it stores, or the one before. -/
theorem blockhash_apply {m : NonceManager} (hd : m.Distinct) {k : ℕ} {e : NonceEntry}
    (he : m.entries[k]? = some e) {a : Action} (ht : m.target a = some k) :
    (a.apply e.state).blockhash = (m.stores e.id a).getD e.state.blockhash := by
  cases a with
  | probe idx now => exact NonceState.take_blockhash now e.state
  | observedLanding id now => exact NonceState.observedLanding_blockhash now e.state
  | timeout idx d d' now => exact NonceState.timeout_blockhash d d' now e.state
  | restoreUnchanged id => exact NonceState.restoreUnchanged_blockhash e.state
  | accountUpdate pk new =>
    simp only [stores, hd.exists_id_iff he, pubkey_of_pubkeyIndex ht he, true_and, Action.apply,
      NonceState.accountUpdate_blockhash]
    split_ifs with hne
    · rfl
    · exact (not_not.mp hne).symm
  | landingWithBlockhash id new =>
    rw [stores, if_pos (id_of_idIndex ht he).symm, Action.apply, NonceState.landingWithBlockhash_fst]
    rfl
  | fallbackRefresh pk observed =>
    simp only [stores, hd.exists_id_iff he, pubkey_of_pubkeyIndex ht he, true_and, Action.apply]
    cases hs : e.state with
    | stale bh since =>
      rw [NonceState.fallbackRefresh_stale]
      rfl
    | _ => rfl

/-- The step lemma for the cached hash: it is the one just stored, or the one before. -/
theorem blockhash_step {m : NonceManager} (hd : m.Distinct) {k : ℕ} {e : NonceEntry}
    (he : m.entries[k]? = some e) (a : Action) :
    ∃ s, (m.step a).1.entries[k]? = some { e with state := s } ∧
      s.blockhash = (m.stores e.id a).getD e.state.blockhash := by
  by_cases ht : m.target a = some k
  · exact ⟨_, getElem?_step_of_target ht he, blockhash_apply hd he ht⟩
  · refine ⟨e.state, getElem?_step_of_ne ht ▸ he, ?_⟩
    rw [stores_of_untargeted hd he ht]
    rfl

/-- After every run the cached hash is the last one stored. -/
theorem blockhash_run (acts : List Action) {m : NonceManager} (hd : m.Distinct) {k : ℕ}
    {e : NonceEntry} (he : m.entries[k]? = some e) :
    ∃ s, (machine.run m acts).1.entries[k]? = some { e with state := s } ∧
      s.blockhash = lastStored e.id m acts e.state.blockhash := by
  induction acts generalizing m e with
  | nil => exact ⟨e.state, he, rfl⟩
  | cons a acts ih =>
    obtain ⟨s, hs, hbh⟩ := blockhash_step hd he a
    obtain ⟨s', hs', hbh'⟩ := ih (hd.step a) hs
    refine ⟨s', hs', ?_⟩
    rw [hbh', hbh]
    rfl

/-! ## Whole calls are sequences of accesses -/

theorem step_probe_of_ready {m : NonceManager} {idx : ℕ} {e : NonceEntry} {bh : Hash}
    (he : m.entries[idx]? = some e) (hs : e.state = .ready bh) (now : Instant) :
    (m.step (.probe idx now)).2 = [(e.id, e.pubkey, bh)] := by
  simp [NonceManager.step, target, he, Action.taken, hs, NonceState.take]

theorem step_probe_of_not_ready {m : NonceManager} {idx : ℕ} {now : Instant}
    (h : ∀ e, m.entries[idx]? = some e → e.state.isReady = false) :
    m.step (.probe idx now) = (m, []) := by
  simp only [NonceManager.step, target]
  cases he : m.entries[idx]? with
  | none => rfl
  | some e =>
    have hs := NonceState.take_of_not_ready (h e he) now
    have hsame : m.setState idx e.state = m := by
      have hentries : m.entries.modify idx (fun f => { f with state := e.state }) = m.entries := by
        refine List.ext_getElem? fun k => ?_
        rw [List.getElem?_modify]
        by_cases hk : idx = k
        · simp [← hk, he]
        · simp [hk]
      rw [setState, hentries]
    simp [Action.apply, Action.taken, hs, hsame]

/-- The loop of `take_ready` is a run of probes, up to the first that succeeds. -/
theorem takeFirst_run (now : Instant) (idxs : List ℕ) (m : NonceManager) :
    ∃ n, machine.run m ((idxs.take n).map fun idx => .probe idx now) =
      ((takeFirst now idxs m).1, (takeFirst now idxs m).2.toList) := by
  induction idxs with
  | nil => exact ⟨0, rfl⟩
  | cons idx idxs ih =>
    obtain ⟨n, hn⟩ := ih
    by_cases hr : ∃ e bh, m.entries[idx]? = some e ∧ e.state = .ready bh
    · obtain ⟨e, bh, he, hs⟩ := hr
      refine ⟨1, ?_⟩
      rw [takeFirst_of_ready he hs]
      simp [he, hs, NonceState.take, EventMachine.run_cons, machine, NonceManager.step, target,
        Action.apply, Action.taken]
    · have hno : ∀ e, m.entries[idx]? = some e → e.state.isReady = false := by
        intro e he
        cases hs : e.state with
        | ready bh => exact absurd ⟨e, bh, he, hs⟩ hr
        | _ => rfl
      refine ⟨n + 1, ?_⟩
      have hstep : machine.step m (.probe idx now) = (m, []) := step_probe_of_not_ready hno
      rw [List.take_succ_cons, List.map_cons, EventMachine.run_cons, hstep, takeFirst_of_not_ready hno, hn]
      rfl

/-- The loop of `tick_timeouts` is a run of timeout accesses, entry after entry. -/
theorem timeouts_run (d d' : Duration) (now : Instant) {idxs : List ℕ} (hnd : idxs.Nodup)
    (m : NonceManager) (k : ℕ) :
    (machine.run m (idxs.map fun idx => .timeout idx d d' now)).1.entries[k]? =
      m.entries[k]?.map fun e =>
        if k ∈ idxs then { e with state := (e.state.timeout d d' now).1 } else e := by
  induction idxs generalizing m with
  | nil => simp
  | cons idx idxs ih =>
    obtain ⟨hidx, hnd⟩ := List.nodup_cons.mp hnd
    have hstep := getElem?_step m (.timeout idx d d' now) k
    rw [List.map_cons, EventMachine.run_cons_fst, ih hnd]
    change Option.map _ ((m.step (.timeout idx d d' now)).1.entries[k]?) = _
    rw [hstep, Option.map_map]
    congr 1
    funext e
    by_cases hk : idx = k
    · subst hk
      simp [hidx, target, Action.apply]
    · have hne : ¬k = idx := fun h => hk h.symm
      simp [hk, hne, target]

theorem tickTimeouts_run (m : NonceManager) (d d' : Duration) (now : Instant) :
    (machine.run m ((List.range m.entries.length).map fun idx => .timeout idx d d' now)).1.entries =
      (m.tickTimeouts d d' now).1.entries := by
  refine List.ext_getElem? fun k => ?_
  rw [timeouts_run d d' now List.nodup_range]
  simp only [tickTimeouts, List.map_map, List.getElem?_map]
  cases he : m.entries[k]? with
  | none => rfl
  | some e =>
    have hlt : k < m.entries.length := (List.getElem?_eq_some_iff.mp he).1
    simp [hlt]

/-! ## No double allocation -/

theorem distinct_new {entries : List (NonceId × Pubkey × Hash)}
    (hid : (entries.map fun e => e.1).Nodup) (hpk : (entries.map fun e => e.2.1).Nodup) :
    (new entries).Distinct where
  ids := by simpa [new, Function.comp_def] using hid
  pubkeys := by simpa [new, Function.comp_def] using hpk

/-- `a`, taken in `m`, is a `take_ready` that returns the nonce `id`. -/
def Takes (m : NonceManager) (id : NonceId) (a : Action) : Prop := ∃ t ∈ (m.step a).2, t.1 = id

theorem held_of_takes {m : NonceManager} {id : NonceId} {a : Action}
    (h : m.Takes id a) : ∃ k, (m.step a).1.Held k id := by
  obtain ⟨t, ht, rfl⟩ := h
  obtain ⟨k, now, e, bh, rfl, he, hs, rfl⟩ := mem_step_taken ht
  refine ⟨k, _, getElem?_step_of_target rfl he, rfl, ?_⟩
  simp [Action.apply, hs, NonceState.take, NonceState.isReady]

theorem Distinct.not_takes_of_held {m : NonceManager} (hd : m.Distinct) {k : ℕ} {id : NonceId}
    (h : m.Held k id) (a : Action) : ¬m.Takes id a := by
  rintro ⟨t, ht, rfl⟩
  obtain ⟨k', now, e', bh, rfl, he', hs, rfl⟩ := mem_step_taken ht
  obtain ⟨e, he, hid, hr⟩ := h
  have hk := hd.index_of_id he he' hid
  rw [← hk, he, Option.some.injEq] at he'
  rw [he', hs] at hr
  simp [NonceState.isReady] at hr

/-- A nonce taken out of a run carries the hash last stored for it. -/
theorem taken_lastStored {entries : List (NonceId × Pubkey × Hash)}
    (hd : (new entries).Distinct) {pre : List Action} {b : Action}
    {t : NonceId × Pubkey × Hash} (ht : t ∈ ((machine.run (new entries) pre).1.step b).2) :
    ∃ initial, (t.1, t.2.1, initial) ∈ entries ∧
      t.2.2 = lastStored t.1 (new entries) pre initial := by
  obtain ⟨k, now, e, bh, rfl, he, hs, rfl⟩ := mem_step_taken ht
  have hids : (machine.run (new entries) pre).1.entries.map NonceEntry.id =
      (new entries).entries.map NonceEntry.id :=
    machine.run_invariant (fun m => m.entries.map NonceEntry.id = (new entries).entries.map NonceEntry.id)
      rfl (fun m a h => by rw [← h]; exact map_entries_step (fun _ _ => rfl) m a) pre
  have hlen := congrArg List.length hids
  simp only [List.length_map] at hlen
  have hlt := (List.getElem?_eq_some_iff.mp he).1
  have he₀ := List.getElem?_eq_getElem (l := (new entries).entries) (hlen ▸ hlt)
  generalize (new entries).entries[k] = e₀ at he₀
  obtain ⟨s, hrun, hbh⟩ := blockhash_run pre hd he₀
  rw [he, Option.some.injEq] at hrun
  subst hrun
  have hmem : e₀ ∈ (new entries).entries := List.mem_of_getElem? he₀
  obtain ⟨⟨id, pk, initial⟩, hin, rfl⟩ := List.mem_map.mp hmem
  refine ⟨initial, hin, ?_⟩
  have hready : s = .ready bh := hs
  rw [hready] at hbh
  exact hbh

/-- Between two takes of one nonce lies an action that releases it. -/
theorem released_between {m : NonceManager} (hd : m.Distinct) {id : NonceId} {a b : Action}
    {mid : List Action} (ha : m.Takes id a) (hb : (machine.run (m.step a).1 mid).1.Takes id b) :
    SomeSplit (fun between r => (machine.run (m.step a).1 between).1.Releases id r) mid := by
  by_contra hno
  rw [SomeSplit.not_iff] at hno
  obtain ⟨k, hheld⟩ := held_of_takes ha
  exact ((hd.step a).run mid).not_takes_of_held (hheld.run hno) b hb

/-- In every run of a manager with distinct ids and pubkeys, a `take_ready` that returns a
nonce returns the hash last stored for it, and between any two that return the same nonce
lies an action that releases it. -/
theorem no_double_allocation (entries : List (NonceId × Pubkey × Hash))
    (hid : (entries.map fun e => e.1).Nodup) (hpk : (entries.map fun e => e.2.1).Nodup)
    (acts : List Action) :
    (∀ pre b post, acts = pre ++ b :: post →
      ∀ t ∈ ((machine.run (new entries) pre).1.step b).2,
        ∃ initial, (t.1, t.2.1, initial) ∈ entries ∧
          t.2.2 = lastStored t.1 (new entries) pre initial) ∧
      ∀ pre a mid b post id, acts = pre ++ a :: mid ++ b :: post →
        (machine.run (new entries) pre).1.Takes id a →
        (machine.run (new entries) (pre ++ a :: mid)).1.Takes id b →
        SomeSplit (fun between r =>
          (machine.run (new entries) (pre ++ a :: between)).1.Releases id r) mid := by
  have hd := distinct_new hid hpk
  refine ⟨fun pre b post _ t ht => taken_lastStored hd ht, ?_⟩
  intro pre a mid b post id _ ha hb
  have hrun : ∀ between, (machine.run (new entries) (pre ++ a :: between)).1 =
      (machine.run ((machine.run (new entries) pre).1.step a).1 between).1 := by
    intro between
    rw [EventMachine.run_append]
    rfl
  rw [hrun] at hb
  obtain ⟨between, r, rest, hmid, hr⟩ := released_between (hd.run pre) ha hb
  refine ⟨between, r, rest, hmid, ?_⟩
  simp only [hrun]
  exact hr

theorem no_double_allocation_sample :
    let entries := [(1, 101, 11), (2, 102, 12)]
    let acts := [.probe 0 0, .landingWithBlockhash 1 21, .probe 0 5]
    (∀ pre b post, acts = pre ++ b :: post →
      ∀ t ∈ ((machine.run (new entries) pre).1.step b).2,
        ∃ initial, (t.1, t.2.1, initial) ∈ entries ∧
          t.2.2 = lastStored t.1 (new entries) pre initial) ∧
      ∀ pre a mid b post id, acts = pre ++ a :: mid ++ b :: post →
        (machine.run (new entries) pre).1.Takes id a →
        (machine.run (new entries) (pre ++ a :: mid)).1.Takes id b →
        SomeSplit (fun between r =>
          (machine.run (new entries) (pre ++ a :: between)).1.Releases id r) mid :=
  no_double_allocation [(1, 101, 11), (2, 102, 12)] (by decide) (by decide) _

end NonceManager
end SolanaBench.Nonce
