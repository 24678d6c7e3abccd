import SolanaBench.Lib.ValueLease
import SolanaBench.TickTrigger.NoncePipeline

/-! Exclusivity of durable nonces. A nonce account is a resource that never takes a value
twice, its manager entry an allocator, and the bindings of the triggers are leases; every
move of the pipeline keeps the leases in order, except a release of a value that a
trigger is still bound to. -/
namespace SolanaBench.TickTrigger.NoncePipeline

open Nonce TxBuilder

/-- A refresh that finds the value unchanged meets no trigger bound to it, and a match
reaches the manager while it still caches the value the landing consumed, or once the new
value is ready. -/
def CleanRelease (st : State) : Input → Prop
  | .refresh account => ∀ e ∈ st.manager.entries, e.pubkey = account → e.state.isStale = true →
    st.onChain account = some e.state.blockhash →
      ∀ b ∈ st.bindings, b.2 ≠ (account, e.state.blockhash)
  | .matched n => ∀ l ∈ st.landings[n]?, ∀ e ∈ st.manager.entries, e.id = l.nonceId →
    e.state.blockhash = l.consumed ∨ e.state = .ready l.value
  | _ => True

instance (st : State) : ∀ i, Decidable (CleanRelease st i)
  | .refresh account => inferInstanceAs (Decidable (∀ e ∈ st.manager.entries, e.pubkey = account →
    e.state.isStale = true → st.onChain account = some e.state.blockhash →
      ∀ b ∈ st.bindings, b.2 ≠ (account, e.state.blockhash)))
  | .matched n => inferInstanceAs (Decidable (∀ l ∈ st.landings[n]?, ∀ e ∈ st.manager.entries,
    e.id = l.nonceId → e.state.blockhash = l.consumed ∨ e.state = .ready l.value))
  | .receive _ _ | .probe _ _ | .insert _ _ | .evict _ | .dispatch _ | .resolve _ _
  | .timeout _ _ _ _ | .land _ _ | .matchedMiss _ _ => inferInstanceAs (Decidable True)

/-! ## The invariant -/

/-- The manager has the account under the id. -/
def State.Known (st : State) (id : NonceId) (account : Pubkey) : Prop :=
  ∃ e ∈ st.manager.entries, e.id = id ∧ e.pubkey = account

/-- A nonced transaction carries the id of its account. -/
def State.Signed (st : State) (v : PreSignedTx) : Prop :=
  ∀ account bh, v.tx.durableNonce = some (account, bh) →
    ∃ id, v.nonceId = some id ∧ st.Known id account

/-- All transactions in the pool or past the dispatcher. -/
def State.txs (st : State) : List PreSignedTx :=
  (st.pool.inner.entries.flatMap Sigma.snd) ++ st.unresolved.map Prod.snd ++ st.sent

def State.Lease (st : State) (account : Pubkey) (s : NonceState) : Prop :=
  ValueLease (st.chain account) s.blockhash (s.isReady = true)
    fun key bh => ((key, account, bh) : Binding) ∈ st.bindings

structure Inv (st : State) : Prop where
  distinct : st.manager.Distinct
  lease : ∀ e ∈ st.manager.entries, st.Lease e.pubkey e.state
  taken : ∀ id account bh, st.taken = some (id, account, bh) → st.Known id account
  signed : ∀ v ∈ st.txs, st.Signed v
  landings : ∀ l ∈ st.landings, st.Known l.nonceId l.account ∧
    ∃ before after, st.chain l.account = before ++ l.consumed :: l.value :: after

variable {st st' : State} {cfg : PreparerConfig}

theorem mem_bindings {b : Binding} : b ∈ st.bindings ↔
    (∃ id, st.pending = some b.1 ∧ st.taken = some (id, b.2)) ∨
    (∃ e ∈ st.pool.inner.entries, ∃ v ∈ e.2, bindingOf e.1 v = some b) ∨
    ∃ a ∈ st.unresolved, bindingOf a.1 a.2 = some b := by
  unfold State.bindings
  rw [List.mem_append, List.mem_append, or_assoc]
  refine or_congr ?_ (or_congr ?_ List.mem_filterMap)
  · obtain ⟨key, nonce⟩ := b
    cases hp : st.pending <;> cases ht : st.taken <;> simp
    constructor
    · rintro ⟨rfl, rfl⟩
      exact ⟨rfl, _, rfl⟩
    · rintro ⟨rfl, id, rfl⟩
      exact ⟨rfl, rfl⟩
  · simp only [List.mem_flatMap, List.mem_filterMap]

theorem mem_txs {v : PreSignedTx} : v ∈ st.txs ↔
    (∃ e ∈ st.pool.inner.entries, v ∈ e.2) ∨ (∃ a ∈ st.unresolved, a.2 = v) ∨ v ∈ st.sent := by
  unfold State.txs
  rw [List.mem_append, List.mem_append, or_assoc, List.mem_flatMap, List.mem_map]

theorem durableNonce_of_bindingOf {key : ScheduleEntry} {v : PreSignedTx} {b : Binding}
    (h : bindingOf key v = some b) : v.tx.durableNonce = some b.2 ∧ b.1 = key := by
  obtain ⟨n, hn, rfl⟩ := Option.map_eq_some_iff.mp h
  exact ⟨hn, rfl⟩

/-- A landing happens to a sent transaction bound to the current value of its account. -/
theorem land_cases (st : State) (n : ℕ) (value : Hash) : land st n value = st ∨
    ∃ v ∈ st.sent, ∃ account bh nonceId, v.tx.durableNonce = some (account, bh) ∧
      v.nonceId = some nonceId ∧ st.onChain account = some bh ∧ value ∉ st.chain account ∧
      land st n value = { st with
        chain := Function.update st.chain account (st.chain account ++ [value])
        landings := st.landings ++ [⟨nonceId, account, bh, value⟩] } := by
  unfold land
  cases hn : st.sent[n]? with
  | none => exact Or.inl rfl
  | some v =>
    dsimp only
    split
    · rename_i account bh nonceId hnonce hid
      split_ifs with hcond
      · exact Or.inr ⟨v, List.mem_of_getElem? hn, account, bh, nonceId, hnonce, hid,
          hcond.1, hcond.2, rfl⟩
      · exact Or.inl rfl
    · exact Or.inl rfl

namespace Inv

/-- Every binding is to an account of the manager. -/
theorem known_of_mem (h : Inv st) {b : Binding} (hb : b ∈ st.bindings) :
    ∃ e ∈ st.manager.entries, e.pubkey = b.2.1 := by
  have hsigned : ∀ v ∈ st.txs, v.tx.durableNonce = some b.2 →
      ∃ e ∈ st.manager.entries, e.pubkey = b.2.1 := by
    intro v hv hn
    obtain ⟨id, -, e, he, -, hpk⟩ := h.signed v hv b.2.1 b.2.2 hn
    exact ⟨e, he, hpk⟩
  rcases mem_bindings.mp hb with ⟨id, -, ht⟩ | ⟨e, he, v, hv, hn⟩ | ⟨a, ha, hn⟩
  · obtain ⟨e, he, -, hpk⟩ := h.taken id b.2.1 b.2.2 ht
    exact ⟨e, he, hpk⟩
  · exact hsigned v (mem_txs.mpr (Or.inl ⟨e, he, hv⟩)) (durableNonce_of_bindingOf hn).1
  · exact hsigned a.2 (mem_txs.mpr (Or.inr (Or.inl ⟨a, ha, rfl⟩))) (durableNonce_of_bindingOf hn).1

theorem exclusive (h : Inv st) : st.Exclusive := by
  intro b hb b' hb' hsame
  obtain ⟨e, he, hpk⟩ := h.known_of_mem hb
  have hlease := h.lease e he
  unfold State.Lease at hlease
  rw [hpk] at hlease
  refine hlease.exclusive b.1 b'.1 b.2.2 hb ?_
  rw [hsame]
  exact hb'

/-- A move that touches neither the manager nor the chain and binds nothing new. -/
theorem forget (h : Inv st) (hm : st'.manager = st.manager) (hc : st'.chain = st.chain)
    (hl : st'.landings = st.landings) (ht : ∀ n, st'.taken = some n → st.taken = some n)
    (hb : ∀ b ∈ st'.bindings, b ∈ st.bindings) (hv : ∀ v ∈ st'.txs, st.Signed v) : Inv st' where
  distinct := by rw [hm]; exact h.distinct
  lease e he := by
    rw [hm] at he
    unfold State.Lease
    rw [hc]
    exact (h.lease e he).mono id fun key bh hmem => hb _ hmem
  taken id account bh htk := by
    unfold State.Known
    rw [hm]
    exact h.taken id account bh (ht _ htk)
  signed v hmem := by
    unfold State.Signed State.Known
    rw [hm]
    exact hv v hmem
  landings l hmem := by
    unfold State.Known
    rw [hm, hc]
    rw [hl] at hmem
    exact h.landings l hmem

theorem known_manage (a : NonceManager.Action) (id : NonceId) (account : Pubkey) :
    (st.manage a).Known id account ↔ st.Known id account := by
  have hmap : (st.manager.step a).1.entries.map (fun e => (e.id, e.pubkey)) =
      st.manager.entries.map fun e => (e.id, e.pubkey) :=
    NonceManager.map_entries_step (fun _ _ => rfl) st.manager a
  have hiff (m : NonceManager) : (∃ e ∈ m.entries, e.id = id ∧ e.pubkey = account) ↔
      (id, account) ∈ m.entries.map fun e => (e.id, e.pubkey) := by
    simp [List.mem_map]
  show (∃ e ∈ (st.manager.step a).1.entries, _) ↔ _
  rw [hiff, hmap, ← hiff]
  rfl

/-- An access to the manager, and what the preparer has taken after it. -/
theorem access (h : Inv st) (a : NonceManager.Action) (taken : Option (NonceId × Pubkey × Hash))
    (hlease : ∀ k e, st.manager.entries[k]? = some e →
      ({ st with taken := taken } : State).Lease e.pubkey
        (if st.manager.target a = some k then a.apply e.state else e.state))
    (htaken : ∀ id account bh, taken = some (id, account, bh) → st.Known id account) :
    Inv { st.manage a with taken := taken } where
  distinct := h.distinct.step a
  lease e' he' := by
    obtain ⟨k, e, he, rfl⟩ := NonceManager.mem_entries_step he'
    have hk := hlease k e he
    split_ifs at hk ⊢ <;> exact hk
  taken id account bh ht := (known_manage a id account).mpr (htaken id account bh ht)
  signed v hv account bh hn := by
    obtain ⟨id, hid, hk⟩ := h.signed v hv account bh hn
    exact ⟨id, hid, (known_manage a id account).mpr hk⟩
  landings l hl := by
    obtain ⟨hk, hsplit⟩ := h.landings l hl
    exact ⟨(known_manage a l.nonceId l.account).mpr hk, hsplit⟩

/-- An access that leaves the entry it locks with a lease in order. -/
theorem manage (h : Inv st) (a : NonceManager.Action)
    (hown : ∀ k e, st.manager.entries[k]? = some e → st.manager.target a = some k →
      st.Lease e.pubkey (a.apply e.state)) : Inv (st.manage a) := by
  refine h.access a st.taken (fun k e he => ?_) h.taken
  split_ifs with ht
  · exact hown k e he ht
  · exact h.lease e (List.mem_of_getElem? he)

theorem timeout (h : Inv st) (idx : ℕ) (d d' : Duration) (now : Instant) :
    Inv (st.manage (.timeout idx d d' now)) := by
  refine h.manage _ fun k e he _ => ?_
  have hlease := h.lease e (List.mem_of_getElem? he)
  show ValueLease _ (e.state.timeout d d' now).1.blockhash _ _
  rw [NonceState.timeout_blockhash]
  exact hlease.mono NonceState.isReady_of_timeout fun _ _ hb => hb

theorem refresh (h : Inv st) {account : Pubkey} (hc : CleanRelease st (.refresh account)) :
    Inv (refresh st account) := by
  unfold NoncePipeline.refresh
  cases hon : st.onChain account with
  | none => exact h
  | some value =>
    refine h.manage _ fun k e he ht => ?_
    have hpk := NonceManager.pubkey_of_pubkeyIndex ht he
    have hmem := List.mem_of_getElem? he
    have hlease := h.lease e hmem
    show st.Lease e.pubkey (e.state.fallbackRefresh value)
    cases hs : e.state with
    | stale bh since =>
      rw [NonceState.fallbackRefresh_stale]
      unfold State.Lease at hlease
      rw [hs] at hlease
      subst hpk
      refine hlease.renew_last hon fun hv key hb => ?_
      have hv : value = bh := hv
      have hclean := hc e hmem rfl (by rw [hs]; rfl) (by rw [hs, hon, hv]; rfl) _ hb
      rw [hs, hv] at hclean
      exact hclean rfl
    | _ =>
      rw [hs] at hlease
      exact hlease

/-- Dropping a pending match. -/
theorem eraseLanding (h : Inv st) (n : ℕ) :
    Inv { st with landings := st.landings.eraseIdx n } where
  distinct := h.distinct
  lease := h.lease
  taken := h.taken
  signed := h.signed
  landings l hl := h.landings l (List.mem_of_mem_eraseIdx hl)

theorem matched (h : Inv st) {n : ℕ} (hc : CleanRelease st (.matched n)) :
    Inv (matched st n) := by
  unfold NoncePipeline.matched
  cases hn : st.landings[n]? with
  | none => exact h
  | some l =>
    refine (h.manage (.landingWithBlockhash l.nonceId l.value) ?_).eraseLanding n
    intro k e he ht
    have hid := NonceManager.id_of_idIndex ht he
    have hmem := List.mem_of_getElem? he
    have hlease := h.lease e hmem
    obtain ⟨hknown, before, after, hsplit⟩ := h.landings l (List.mem_of_getElem? hn)
    -- the id and the account of the landing belong to the same entry
    have hpk : e.pubkey = l.account := (h.distinct.exists_id_iff he).mp (hid ▸ hknown)
    show st.Lease e.pubkey (e.state.landingWithBlockhash l.value).1
    rw [NonceState.landingWithBlockhash_fst]
    rcases hc l hn e hmem hid with hcached | hready
    · unfold State.Lease at hlease
      rw [hcached, hpk] at hlease
      rw [hpk]
      exact hlease.renew_next hsplit
    · rw [← hready]
      exact hlease

theorem matchedMiss (h : Inv st) (n : ℕ) (now : Instant) : Inv (matchedMiss st n now) := by
  unfold NoncePipeline.matchedMiss
  cases hn : st.landings[n]? with
  | none => exact h
  | some l =>
    refine (h.manage (.observedLanding l.nonceId now) ?_).eraseLanding n
    intro k e he _
    have hlease := h.lease e (List.mem_of_getElem? he)
    show ValueLease _ (e.state.observedLanding now).blockhash _ _
    rw [NonceState.observedLanding_blockhash]
    exact hlease.mono NonceState.isReady_of_observedLanding fun _ _ hb => hb

/-- A landing moves the account on to a new value, right after the one it consumed. -/
theorem land (h : Inv st) (n : ℕ) (value : Hash) : Inv (land st n value) := by
  rcases land_cases st n value with hsame | ⟨v, hv, account, bh, nonceId, hn, hid, hcur, hfresh, heq⟩
  · rw [hsame]
    exact h
  · rw [heq]
    have hsigned := h.signed v (mem_txs.mpr (Or.inr (Or.inr hv)))
    obtain ⟨id, hid', hknown⟩ := hsigned account bh hn
    obtain rfl : nonceId = id := Option.some.inj (hid.symm.trans hid')
    obtain ⟨before, hlast⟩ := List.getLast?_eq_some_iff.mp hcur
    refine ⟨h.distinct, fun e he => ?_, h.taken, h.signed, fun l hl => ?_⟩
    · have hlease := h.lease e he
      unfold State.Lease
      by_cases hpk : e.pubkey = account
      · subst hpk
        simp only [Function.update_self]
        exact hlease.extend hfresh
      · simp only [Function.update_of_ne hpk]
        exact hlease
    · rcases List.mem_append.mp hl with hold | hnew
      · obtain ⟨hk, before', after', hsplit⟩ := h.landings l hold
        refine ⟨hk, ?_⟩
        by_cases hpk : l.account = account
        · simp only [hpk, Function.update_self]
          rw [hpk] at hsplit
          exact ⟨before', after' ++ [value], by simp [hsplit]⟩
        · simp only [Function.update_of_ne hpk]
          exact ⟨before', after', hsplit⟩
      · obtain rfl := List.mem_singleton.mp hnew
        refine ⟨hknown, before, [], ?_⟩
        simp [hlast]

/-- A probe that finds nothing ready. -/
theorem probe_none (h : Inv st) {idx : ℕ} {now : Instant}
    (hout : (st.manager.step (.probe idx now)).2 = []) :
    Inv { st.manage (.probe idx now) with taken := none } := by
  refine h.access _ none (fun k e he => ?_) fun id account bh ht => by cases ht
  have hsame : (if st.manager.target (.probe idx now) = some k then
      NonceManager.Action.apply (.probe idx now) e.state else e.state) = e.state := by
    split_ifs with ht
    · obtain rfl : idx = k := Option.some.inj ht
      cases hs : e.state with
      | ready bh =>
        rw [NonceManager.step_probe_of_ready he hs] at hout
        cases hout
      | _ => rfl
    · rfl
  rw [hsame]
  refine ValueLease.mono (h.lease e (List.mem_of_getElem? he)) id fun key bh hb => ?_
  rcases mem_bindings.mp hb with ⟨id, -, ht⟩ | hrest
  · cases ht
  · exact mem_bindings.mpr (Or.inr hrest)

/-- A probe of a ready entry leases the value to the entry being prepared. -/
theorem probe_taken (h : Inv st) {idx : ℕ} (now : Instant) {entry : ScheduleEntry} {e : NonceEntry}
    {bh : Hash} (hentry : st.pending = some entry) (he : st.manager.entries[idx]? = some e)
    (hs : e.state = .ready bh) :
    Inv { st.manage (.probe idx now) with taken := some (e.id, e.pubkey, bh) } := by
  -- the only new binding is that of the entry in preparation
  have hbindings : ∀ b, b ∈ ({ st with taken := some (e.id, e.pubkey, bh) } : State).bindings →
      b ∈ st.bindings ∨ b = (entry, e.pubkey, bh) := by
    intro b hb
    rcases mem_bindings.mp hb with ⟨id, hp, ht⟩ | hrest
    · refine Or.inr (Prod.ext (Option.some.inj (hp.symm.trans hentry)) ?_)
      exact (congrArg Prod.snd (Option.some.inj ht)).symm
    · exact Or.inl (mem_bindings.mpr (Or.inr hrest))
  refine h.access _ _ (fun k f hf => ?_) fun id account bh' ht => ?_
  · have hlease := h.lease f (List.mem_of_getElem? hf)
    split_ifs with ht
    · obtain rfl : idx = k := Option.some.inj ht
      obtain rfl : e = f := Option.some.inj (he.symm.trans hf)
      unfold State.Lease at hlease ⊢
      rw [hs] at hlease ⊢
      refine hlease.lease rfl (by simp [NonceState.isReady, NonceManager.Action.apply,
        NonceState.take]) entry fun key w hw => ?_
      rcases hbindings _ hw with hold | hnew
      · exact Or.inl hold
      · simp only [Prod.mk.injEq] at hnew
        exact Or.inr ⟨hnew.1, hnew.2.2⟩
    · refine hlease.mono id fun key w hw => ?_
      rcases hbindings _ hw with hold | hnew
      · exact hold
      · simp only [Prod.mk.injEq] at hnew
        exact absurd (congrArg some (h.distinct.index_of_pubkey he hf hnew.2.1.symm)) ht
  · have hn := Option.some.inj ht
    simp only [Prod.mk.injEq] at hn
    obtain ⟨rfl, rfl, -⟩ := hn
    exact ⟨e, List.mem_of_getElem? he, rfl, rfl⟩

theorem probe (h : Inv st) (idx : ℕ) (now : Instant) : Inv (probe st idx now) := by
  unfold NoncePipeline.probe
  split_ifs with hcond
  · obtain ⟨entry, hentry⟩ := Option.ne_none_iff_exists'.mp hcond.1
    cases hout : (st.manager.step (.probe idx now)).2 with
    | nil => exact h.probe_none hout
    | cons t rest =>
      obtain ⟨k, now', e, bh, ha, he, hs, rfl⟩ :=
        NonceManager.mem_step_taken (hout ▸ List.mem_cons_self : t ∈ (st.manager.step _).2)
      obtain ⟨rfl, rfl⟩ : idx = k ∧ now = now' := by simpa using ha
      exact h.probe_taken now hentry he hs
  · exact h

theorem receive (h : Inv st) (entry : ScheduleEntry) (currentSlot : ℕ)
    (hp : st.pending = none → st.taken = none) : Inv (receive st entry currentSlot) := by
  unfold NoncePipeline.receive
  split_ifs with hcond
  · have htaken := hp hcond.1
    refine h.forget rfl rfl rfl (fun _ hn => hn) (fun b hb => ?_) fun v hv => h.signed v hv
    rcases mem_bindings.mp hb with ⟨id, -, ht⟩ | hrest
    · rw [htaken] at ht
      cases ht
    · exact mem_bindings.mpr (Or.inr hrest)
  · exact h

/-- The variants put in the pool are bound to the nonce that was taken. -/
theorem insert (h : Inv st) (cfg : PreparerConfig) (tips : Tips) (preparedAt : Instant) :
    Inv (insert cfg st tips preparedAt) := by
  unfold NoncePipeline.insert
  split
  · rename_i entry id pubkey bh hpending htaken
    have hpool (e : Sigma fun _ : ScheduleEntry => List PreSignedTx)
        (he : e ∈ (st.pool.insertAll entry
          (Preparer.variants cfg tips entry bh (some (id, pubkey)) preparedAt)).inner.entries) :
        e = ⟨entry, Preparer.variants cfg tips entry bh (some (id, pubkey)) preparedAt⟩ ∨
          e ∈ st.pool.inner.entries := by
      rcases List.mem_cons.mp he with rfl | hold
      · exact Or.inl rfl
      · exact Or.inr (List.Sublist.mem hold (List.kerase_sublist entry st.pool.inner.entries))
    refine h.forget rfl rfl rfl (fun _ hn => by cases hn) (fun b hb => ?_) fun v hv => ?_
    · rcases mem_bindings.mp hb with ⟨_, hp, -⟩ | ⟨e, he, v, hv, hn⟩ | hrest
      · cases hp
      · rcases hpool e he with rfl | hold
        · obtain ⟨hnonce, hkey⟩ := durableNonce_of_bindingOf hn
          have hvariant := (Preparer.mem_variants hv).1
          refine mem_bindings.mpr (Or.inl ⟨id, ?_, ?_⟩)
          · rw [hpending, hkey]
          · rw [htaken, Option.some.inj (hnonce.symm.trans hvariant)]
        · exact mem_bindings.mpr (Or.inr (Or.inl ⟨e, hold, v, hv, hn⟩))
      · exact mem_bindings.mpr (Or.inr (Or.inr hrest))
    · rcases mem_txs.mp hv with ⟨e, he, hv⟩ | hrest
      · rcases hpool e he with rfl | hold
        · obtain ⟨hnonce, hid, -⟩ := Preparer.mem_variants hv
          intro account bh' hn
          have hsame : (account, bh') = (pubkey, bh) :=
            Option.some.inj (hn.symm.trans hnonce)
          obtain ⟨rfl, -⟩ := Prod.mk.inj hsame
          exact ⟨id, hid, h.taken id account bh htaken⟩
        · exact h.signed v (mem_txs.mpr (Or.inl ⟨e, hold, hv⟩))
      · exact h.signed v (mem_txs.mpr (Or.inr hrest))
  · exact h

/-- Variants leave the pool, and attempts are closed. -/
theorem drop (h : Inv st) {pool : TxPool} {unresolved : List (ScheduleEntry × PreSignedTx)}
    (hpool : ∀ e ∈ pool.inner.entries, e ∈ st.pool.inner.entries)
    (hopen : ∀ a ∈ unresolved, a ∈ st.unresolved) :
    Inv { st with pool := pool, unresolved := unresolved } := by
  refine h.forget rfl rfl rfl (fun _ hn => hn) (fun b hb => ?_) fun v hv => ?_
  · rcases mem_bindings.mp hb with hfirst | ⟨e, he, hrest⟩ | ⟨a, ha, hn⟩
    · exact mem_bindings.mpr (Or.inl hfirst)
    · exact mem_bindings.mpr (Or.inr (Or.inl ⟨e, hpool e he, hrest⟩))
    · exact mem_bindings.mpr (Or.inr (Or.inr ⟨a, hopen a ha, hn⟩))
  · rcases mem_txs.mp hv with ⟨e, he, hv⟩ | ⟨a, ha, rfl⟩ | hsent
    · exact h.signed v (mem_txs.mpr (Or.inl ⟨e, hpool e he, hv⟩))
    · exact h.signed _ (mem_txs.mpr (Or.inr (Or.inl ⟨a, hopen a ha, rfl⟩)))
    · exact h.signed v (mem_txs.mpr (Or.inr (Or.inr hsent)))

theorem evict (h : Inv st) (currentSlot : ℕ) :
    Inv { st with pool := Preparer.maybeEvict st.pool currentSlot } := by
  refine h.drop (fun e he => ?_) fun a ha => ha
  unfold Preparer.maybeEvict at he
  split_ifs at he
  · exact he
  · exact List.mem_of_mem_filter he

/-- The variants that are sent were in the pool under the same trigger. -/
theorem send (h : Inv st) {key : ScheduleEntry} {txs known : List PreSignedTx}
    (hentry : ⟨key, txs⟩ ∈ st.pool.inner.entries) (hknown : ∀ v ∈ known, v ∈ txs) :
    Inv { st with
      unresolved := st.unresolved ++ known.map fun v => (key, v)
      sent := st.sent ++ known } := by
  have hpooled : ∀ v ∈ known, st.Signed v := fun v hv =>
    h.signed v (mem_txs.mpr (Or.inl ⟨_, hentry, hknown v hv⟩))
  refine h.forget rfl rfl rfl (fun _ hn => hn) (fun b hb => ?_) fun v hv => ?_
  · rcases mem_bindings.mp hb with hfirst | hpool | ⟨a, ha, hn⟩
    · exact mem_bindings.mpr (Or.inl hfirst)
    · exact mem_bindings.mpr (Or.inr (Or.inl hpool))
    · rcases List.mem_append.mp ha with hold | hnew
      · exact mem_bindings.mpr (Or.inr (Or.inr ⟨a, hold, hn⟩))
      · obtain ⟨v, hv, rfl⟩ := List.mem_map.mp hnew
        exact mem_bindings.mpr (Or.inr (Or.inl ⟨_, hentry, v, hknown v hv, hn⟩))
  · rcases mem_txs.mp hv with hpool | ⟨a, ha, rfl⟩ | hsent
    · exact h.signed v (mem_txs.mpr (Or.inl hpool))
    · rcases List.mem_append.mp ha with hold | hnew
      · exact h.signed _ (mem_txs.mpr (Or.inr (Or.inl ⟨a, hold, rfl⟩)))
      · obtain ⟨w, hw, rfl⟩ := List.mem_map.mp hnew
        exact hpooled w hw
    · rcases List.mem_append.mp hsent with hold | hnew
      · exact h.signed v (mem_txs.mpr (Or.inr (Or.inr hold)))
      · exact hpooled v hnew

theorem dispatch (h : Inv st) (cfg : PreparerConfig) (key : ScheduleEntry) :
    Inv (dispatch cfg st key) := by
  have herase : ∀ e ∈ (st.pool.inner.erase key).entries, e ∈ st.pool.inner.entries :=
    fun e he => List.Sublist.mem he (List.kerase_sublist key st.pool.inner.entries)
  unfold NoncePipeline.dispatch TxPool.take
  cases hlookup : st.pool.inner.lookup key with
  | none => exact h.drop herase fun a ha => ha
  | some txs =>
    have hsent := h.send (AList.mem_lookup_iff.mp hlookup)
      fun v (hv : v ∈ txs.filter fun v => cfg.senders.any fun sc => sc.id = v.senderId) =>
        List.mem_of_mem_filter hv
    exact hsent.drop herase fun a ha => ha

theorem resolve (h : Inv st) (key : ScheduleEntry) (senderId : ℕ) :
    Inv (resolve st key senderId) :=
  h.drop (fun _ he => he) fun _ ha => List.mem_of_mem_filter ha

end Inv

/-! ## Runs -/

/-- A nonce is held only for an entry in preparation. -/
def TakenForPending (st : State) : Prop := st.pending = none → st.taken = none

theorem takenForPending_next (cfg : PreparerConfig) (h : TakenForPending st) (i : Input) :
    TakenForPending (next cfg st i) := by
  cases i with
  | receive entry currentSlot =>
    show TakenForPending (receive st entry currentSlot)
    unfold receive
    split_ifs
    · intro hp
      cases hp
    · exact h
  | probe idx now =>
    show TakenForPending (probe st idx now)
    unfold probe
    split_ifs with hcond
    · exact fun hp => absurd hp hcond.1
    · exact h
  | insert tips preparedAt =>
    show TakenForPending (insert cfg st tips preparedAt)
    unfold insert
    split
    · exact fun _ => rfl
    · exact h
  | dispatch key =>
    show TakenForPending (dispatch cfg st key)
    unfold dispatch
    split <;> exact h
  | refresh account =>
    show TakenForPending (refresh st account)
    unfold refresh
    split <;> exact h
  | land n value =>
    show TakenForPending (land st n value)
    rcases land_cases st n value with hsame | ⟨v, -, account, bh, nonceId, -, -, -, -, heq⟩
    · rw [hsame]
      exact h
    · rw [heq]
      exact h
  | matched n =>
    show TakenForPending (matched st n)
    unfold matched
    split <;> exact h
  | matchedMiss n now =>
    show TakenForPending (matchedMiss st n now)
    unfold matchedMiss
    split <;> exact h
  | evict | resolve | timeout => exact h

/-- The step lemma: every move with a clean release keeps the leases in order. -/
theorem Inv.next (h : Inv st) (ht : TakenForPending st) {i : Input} (hc : CleanRelease st i) :
    Inv (next cfg st i) := by
  cases i with
  | receive entry currentSlot => exact h.receive entry currentSlot ht
  | probe idx now => exact h.probe idx now
  | insert tips preparedAt => exact h.insert cfg tips preparedAt
  | evict currentSlot => exact h.evict currentSlot
  | dispatch key => exact h.dispatch cfg key
  | resolve key senderId => exact h.resolve key senderId
  | timeout idx d d' now => exact h.timeout idx d d' now
  | refresh account => exact h.refresh hc
  | land n value => exact h.land n value
  | matched n => exact h.matched hc
  | matchedMiss n now => exact h.matchedMiss n now

/-- Nonce accounts have ids and pubkeys of their own. -/
abbrev DistinctAccounts (entries : List (NonceId × Pubkey × Hash)) : Prop :=
  (entries.map Prod.fst).Nodup ∧ (entries.map fun e => e.2.1).Nodup

theorem Inv.initial {entries : List (NonceId × Pubkey × Hash)} (hd : DistinctAccounts entries) :
    Inv (initial entries) where
  distinct := NonceManager.distinct_new hd.1 hd.2
  lease e he := by
    obtain ⟨⟨id, pk, bh⟩, hmem, rfl⟩ := List.mem_map.mp he
    have hfind : entries.find? (fun e => e.2.1 = pk) = some (id, pk, bh) := by
      cases hf : entries.find? (fun e => e.2.1 = pk) with
      | none => simpa using List.find?_eq_none.mp hf _ hmem
      | some f =>
        have hpk : f.2.1 = pk := by simpa using List.find?_some hf
        rw [List.inj_on_of_nodup_map hd.2 (List.mem_of_find?_eq_some hf) hmem hpk]
    show ValueLease ((entries.find? fun e => e.2.1 = pk).map fun e => e.2.2).toList bh _ _
    rw [hfind]
    exact ValueLease.init bh (fun _ _ hb => absurd hb List.not_mem_nil) _
  taken _ _ _ ht := by cases ht
  signed v hv := absurd hv List.not_mem_nil
  landings l hl := absurd hl List.not_mem_nil

/-- Along a run whose releases are clean, no two triggers share a nonce and its value. -/
theorem exclusive_of_cleanRelease (cfg : PreparerConfig)
    {entries : List (NonceId × Pubkey × Hash)} (hd : DistinctAccounts entries) {is : List Input}
    (hc : (machine cfg).Along CleanRelease (initial entries) is) :
    ((machine cfg).run (initial entries) is).1.Exclusive := by
  have h := EventMachine.along_rule CleanRelease
    (fun _ st (_ : List Empty) => Inv st ∧ TakenForPending st)
    ⟨Inv.initial hd, fun _ => rfl⟩
    (fun _ st _ i hi hst => ⟨hst.1.next hst.2 hi, takenForPending_next cfg hst.2 i⟩) hc
  exact h.1.exclusive

/-! One nonce account and one sender; the clocks are in seconds. -/

def sampleConfig : PreparerConfig where
  keypair := 1
  senders := [{ id := 0, kind := .triton }]
  sign tx := tx.recentBlockhash
  shuffle _ txs := txs
  shuffle_perm _ txs := List.Perm.refl txs

def noTips : Tips := ⟨fun _ => none, fun _ => none⟩

/-- A trigger is signed ahead with the nonce that is ready. -/
def prepareAt (slot : ℕ) (now : Instant) : List Input :=
  [.receive ⟨slot, 1⟩ 1, .probe 0 now, .insert noTips now]

/-- The first trigger waits in the pool past the deadline of its nonce. -/
def outlivedReservation : List Input :=
  prepareAt 7 0 ++ [.timeout 0 30 15 30, .refresh 5] ++ prepareAt 8 31

/-- The match of the first landing arrives after a refresh already told the manager. -/
def lateMatch : List Input :=
  prepareAt 7 0 ++ [.dispatch ⟨7, 1⟩, .land 0 101, .timeout 0 30 15 30, .refresh 5] ++
    prepareAt 8 31 ++ [.matched 0] ++ prepareAt 9 32

/-- The same landing told by the refresh only. -/
def refreshedOnly : List Input :=
  prepareAt 7 0 ++ [.dispatch ⟨7, 1⟩, .land 0 101, .timeout 0 30 15 30, .refresh 5] ++
    prepareAt 8 31

theorem exclusive_of_cleanRelease_sample :
    ((machine sampleConfig).run (initial [(0, 5, 100)]) refreshedOnly).1.Exclusive := by
  have hd : DistinctAccounts [(0, 5, 100)] := by decide
  have hc : (machine sampleConfig).Along CleanRelease (initial [(0, 5, 100)]) refreshedOnly := by
    decide +kernel
  exact exclusive_of_cleanRelease sampleConfig hd hc

/-- A refresh that finds the value unchanged hands the nonce of a waiting trigger to the next. -/
theorem nonce_shared_after_refresh :
    ¬((machine sampleConfig).run (initial [(0, 5, 100)]) outlivedReservation).1.Exclusive ∧
      ¬((machine sampleConfig).run (initial [(0, 5, 100)]) lateMatch).1.Exclusive := by
  decide +kernel

end SolanaBench.TickTrigger.NoncePipeline
