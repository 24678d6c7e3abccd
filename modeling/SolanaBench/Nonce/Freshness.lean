import SolanaBench.Nonce.Allocation
import SolanaBench.Nonce.RpcPoller

/-! The cached value of a nonce never goes back. Only the poller makes a nonce stale and
only a stale nonce takes the poller's answers, so an answer meets either the period it
was asked for or a nonce that ignores it. -/
namespace SolanaBench.Nonce.RpcPoller

/-- The place of the cached value of the `k`-th nonce in the history of its account. -/
def System.cachedIndex (sys : System) (k : ℕ) : ℕ :=
  (sys.manager.entries[k]?.map fun e => (sys.chain e.pubkey).index e.state.blockhash).getD 0

def System.onChainIndex (sys : System) (k : ℕ) : ℕ :=
  (sys.manager.entries[k]?.map fun e => (sys.chain e.pubkey).index (sys.chain e.pubkey).latest).getD 0

/-- The answers still to be applied. -/
def Poller.answers : Poller → List (Pubkey × Hash)
  | .refreshing answers _ => answers
  | _ => []

/-- Cached values and pending answers are values the account had, and an answer is no
older than what a stale nonce caches. -/
structure Inv (sys : System) : Prop where
  cached : ∀ e ∈ sys.manager.entries, e.state.blockhash ∈ (sys.chain e.pubkey).values
  known : ∀ a ∈ sys.poller.answers, a.2 ∈ (sys.chain a.1).values
  fresh : ∀ a ∈ sys.poller.answers, ∀ e ∈ sys.manager.entries, e.pubkey = a.1 →
    e.state.isStale = true → (sys.chain a.1).index e.state.blockhash ≤ (sys.chain a.1).index a.2

/-- The histories grow, and no entry caches an older value than before. -/
structure Advances (sys sys' : System) : Prop where
  chain : ∀ account, (sys.chain account).Extends (sys'.chain account)
  entry : ∀ k : ℕ, sys'.manager.entries[k]?.map NonceEntry.pubkey =
    sys.manager.entries[k]?.map NonceEntry.pubkey
  index : ∀ (k : ℕ) e e', sys.manager.entries[k]? = some e → sys'.manager.entries[k]? = some e' →
    (sys'.chain e.pubkey).index e.state.blockhash ≤ (sys'.chain e.pubkey).index e'.state.blockhash

/-! ## Accesses to the manager -/

/-- Apart from a timeout, an access leaves a stale nonce stale only by leaving it alone. -/
theorem apply_eq_of_isStale {a : NonceManager.Action} {s : NonceState}
    (ha : ∀ idx d d' now, a ≠ .timeout idx d d' now) (h : (a.apply s).isStale = true) :
    a.apply s = s := by
  cases a with
  | probe idx now =>
    cases s with
    | ready bh => cases h
    | _ => rfl
  | accountUpdate pk new =>
    simp only [NonceManager.Action.apply, NonceState.accountUpdate] at h ⊢
    split_ifs at h ⊢ with hne
    · cases h
    · rfl
  | observedLanding id now =>
    cases s with
    | inFlight bh since => cases h
    | _ => rfl
  | landingWithBlockhash id new =>
    simp only [NonceManager.Action.apply, NonceState.landingWithBlockhash_fst] at h
    cases h
  | timeout idx d d' now => exact absurd rfl (ha idx d d' now)
  | restoreUnchanged id => cases s <;> cases h
  | fallbackRefresh pk observed =>
    cases hs : s.isStale with
    | false => exact NonceState.fallbackRefresh_of_not_stale hs observed
    | true =>
      cases s with
      | stale bh since =>
        simp only [NonceManager.Action.apply, NonceState.fallbackRefresh_stale] at h
        cases h
      | _ => cases hs

/-- An access keeps the order if the entry it locks does not go back in time. -/
theorem Inv.access {sys : System} (h : Inv sys) (a : NonceManager.Action) (p : Poller)
    (hown : ∀ (k : ℕ) e, sys.manager.entries[k]? = some e → sys.manager.target a = some k →
      (a.apply e.state).blockhash ∈ (sys.chain e.pubkey).values ∧
        (sys.chain e.pubkey).index e.state.blockhash ≤
          (sys.chain e.pubkey).index (a.apply e.state).blockhash)
    (hanswers : ∀ x ∈ p.answers, x ∈ sys.poller.answers)
    (hstale : p.answers ≠ [] → ∀ idx d d' now, a ≠ .timeout idx d d' now) :
    Inv { sys.manage a with poller := p } ∧ Advances sys { sys.manage a with poller := p } := by
  have hstep : ∀ (k : ℕ) e, sys.manager.entries[k]? = some e →
      (sys.manager.step a).1.entries[k]? = some
        (if sys.manager.target a = some k then { e with state := a.apply e.state } else e) := by
    intro k e he
    rw [NonceManager.getElem?_step, he, Option.map_some]
  refine ⟨⟨fun e' he' => ?_, fun x hx => h.known x (hanswers x hx), fun x hx e' he' hpk hs => ?_⟩,
    ⟨fun account => History.Extends.refl _, fun k => ?_, fun k e e' he he' => ?_⟩⟩
  · obtain ⟨k, e, he, rfl⟩ := NonceManager.mem_entries_step he'
    split_ifs with ht
    · exact (hown k e he ht).1
    · exact h.cached e (List.mem_of_getElem? he)
  · obtain ⟨k, e, he, rfl⟩ := NonceManager.mem_entries_step he'
    have hsame : a.apply e.state = e.state ∨ sys.manager.target a ≠ some k := by
      by_cases ht : sys.manager.target a = some k
      · rw [if_pos ht] at hs
        exact Or.inl (apply_eq_of_isStale (hstale (List.ne_nil_of_mem hx)) hs)
      · exact Or.inr ht
    have hentry : (if sys.manager.target a = some k then { e with state := a.apply e.state }
        else e) = e := by
      rcases hsame with heq | ht
      · rw [heq, ite_self]
      · rw [if_neg ht]
    rw [hentry] at hpk hs ⊢
    exact h.fresh x (hanswers x hx) e (List.mem_of_getElem? he) hpk hs
  · show (sys.manager.step a).1.entries[k]?.map _ = _
    cases he : sys.manager.entries[k]? with
    | none =>
      rw [NonceManager.getElem?_step, he]
      rfl
    | some e =>
      rw [hstep k e he]
      simp only [Option.map_some]
      split_ifs <;> rfl
  · have he'' := hstep k e he
    obtain rfl := Option.some.inj (he''.symm.trans he')
    split_ifs with ht
    · exact (hown k e he ht).2
    · exact le_rfl

namespace Advances

variable {sys sys' sys'' : System}

theorem refl (sys : System) : Advances sys sys where
  chain _ := History.Extends.refl _
  entry _ := rfl
  index k e e' he he' := by
    obtain rfl := Option.some.inj (he.symm.trans he')
    exact le_rfl

/-- The entries are the same, with the same accounts. -/
theorem entry_of (h : Advances sys sys') {k : ℕ} {e : NonceEntry}
    (he : sys.manager.entries[k]? = some e) :
    ∃ e', sys'.manager.entries[k]? = some e' ∧ e'.pubkey = e.pubkey := by
  have hk := h.entry k
  rw [he, Option.map_some] at hk
  exact Option.map_eq_some_iff.mp hk

theorem trans (h : Advances sys sys') (h' : Advances sys' sys'') (hc : Inv sys) (hc' : Inv sys') :
    Advances sys sys'' where
  chain account := (h.chain account).trans (h'.chain account)
  entry k := (h'.entry k).trans (h.entry k)
  index k e e'' he he'' := by
    obtain ⟨e', he', hpk⟩ := h.entry_of he
    have hfirst := h.index k e e' he he'
    have hsecond := h'.index k e' e'' he' he''
    have hmem := (h.chain e.pubkey).mem (hc.cached e (List.mem_of_getElem? he))
    have hmem' := hc'.cached e' (List.mem_of_getElem? he')
    rw [hpk] at hmem' hsecond
    rw [← (h'.chain e.pubkey).index_eq hmem, ← (h'.chain e.pubkey).index_eq hmem'] at hfirst
    exact hfirst.trans hsecond

end Advances

/-! ## One step -/

variable {cfg : RpcPollerConfig} {sys : System}

namespace Inv

theorem keep (h : Inv sys) (a : NonceManager.Action) (p : Poller)
    (hkeep : ∀ s, (a.apply s).blockhash = s.blockhash)
    (hanswers : ∀ x ∈ p.answers, x ∈ sys.poller.answers)
    (hstale : p.answers ≠ [] → ∀ idx d d' now, a ≠ .timeout idx d d' now) :
    Inv { sys.manage a with poller := p } ∧ Advances sys { sys.manage a with poller := p } := by
  refine h.access a p (fun k e he _ => ?_) hanswers hstale
  rw [hkeep]
  exact ⟨h.cached e (List.mem_of_getElem? he), le_rfl⟩

/-- The poller moves on without an access and with no new answer. -/
theorem pause (h : Inv sys) (p : Poller) (hanswers : ∀ x ∈ p.answers, x ∈ sys.poller.answers) :
    Inv { sys with poller := p } ∧ Advances sys { sys with poller := p } where
  left :=
    { cached := h.cached
      known := fun x hx => h.known x (hanswers x hx)
      fresh := fun x hx => h.fresh x (hanswers x hx) }
  right :=
    { chain := (Advances.refl sys).chain
      entry := (Advances.refl sys).entry
      index := (Advances.refl sys).index }

theorem hook (h : Inv sys) (id : NonceId) : Inv (hook sys id) ∧ Advances sys (hook sys id) := by
  unfold RpcPoller.hook
  cases hk : sys.manager.idIndex id with
  | none => exact ⟨h, Advances.refl sys⟩
  | some k =>
    dsimp only
    cases he : sys.manager.entries[k]? with
    | none => exact ⟨h, Advances.refl sys⟩
    | some e =>
      refine h.access (.landingWithBlockhash id _) sys.poller (fun j f hf ht => ?_) (fun x hx => hx) (fun _ _ _ _ _ => nofun)
      obtain rfl : k = j := Option.some.inj (hk.symm.trans ht)
      obtain rfl := Option.some.inj (he.symm.trans hf)
      simp only [NonceManager.Action.apply, NonceState.landingWithBlockhash_fst,
        NonceState.blockhash]
      exact ⟨History.mem_latest _, History.index_le_latest _ (h.cached e (List.mem_of_getElem? he))⟩

theorem land (h : Inv sys) (account : Pubkey) (value : Hash) :
    Inv (land sys account value) ∧ Advances sys (land sys account value) := by
  unfold RpcPoller.land
  split_ifs with hv
  · exact ⟨h, Advances.refl sys⟩
  · have hext : ∀ pk, (sys.chain pk).Extends
        (Function.update sys.chain account ((sys.chain account).extend value hv) pk) := by
      intro pk
      by_cases hpk : pk = account
      · subst hpk
        rw [Function.update_self]
        exact History.Extends.extend _ hv
      · rw [Function.update_of_ne hpk]
        exact History.Extends.refl _
    refine ⟨⟨fun e he => (hext e.pubkey).mem (h.cached e he),
      fun x hx => (hext x.1).mem (h.known x hx), fun x hx e he hpk hs => ?_⟩,
      ⟨hext, fun _ => rfl, fun k e e' he he' => ?_⟩⟩
    · rw [(hext x.1).index_eq (hpk ▸ h.cached e he), (hext x.1).index_eq (h.known x hx)]
      exact h.fresh x hx e he hpk hs
    · obtain rfl := Option.some.inj (he.symm.trans he')
      exact le_rfl

/-- An answer is applied to a stale nonce only, which is no newer. -/
theorem refresh (h : Inv sys) {account : Pubkey} {value : Hash} {answers : List (Pubkey × Hash)}
    {pubkeys : List Pubkey} (hp : sys.poller = .refreshing ((account, value) :: answers) pubkeys) :
    let sys' := { sys.manage (.fallbackRefresh account value) with
      poller := .refreshing answers pubkeys }
    Inv sys' ∧ Advances sys sys' := by
  have hmem : (account, value) ∈ sys.poller.answers := by
    rw [hp]
    exact List.mem_cons_self
  refine h.access _ _ (fun k e he ht => ?_) (fun x hx => ?_) (fun _ _ _ _ _ => nofun)
  · have hpk : e.pubkey = account := NonceManager.pubkey_of_pubkeyIndex ht he
    have hcached := h.cached e (List.mem_of_getElem? he)
    simp only [NonceManager.Action.apply]
    cases hs : e.state.isStale with
    | false =>
      rw [NonceState.fallbackRefresh_of_not_stale hs]
      exact ⟨hcached, le_rfl⟩
    | true =>
      have hfresh := h.fresh _ hmem e (List.mem_of_getElem? he) hpk hs
      have hready : e.state.fallbackRefresh value = .ready value := by
        cases hst : e.state with
        | stale bh since => exact NonceState.fallbackRefresh_stale value bh since
        | _ => rw [hst] at hs; cases hs
      rw [hready, hpk]
      exact ⟨h.known _ hmem, hfresh⟩
  · rw [hp]
    exact List.mem_cons_of_mem _ hx

theorem poll (h : Inv sys) : Inv (poll cfg sys) ∧ Advances sys (poll cfg sys) := by
  unfold RpcPoller.poll
  split
  · exact ⟨h, Advances.refl sys⟩
  · split_ifs
    · refine h.keep _ _ (fun s => NonceState.timeout_blockhash _ _ _ s) ?_ fun hne => absurd rfl hne
      exact fun x hx => absurd hx List.not_mem_nil
    · exact h.pause _ fun x hx => absurd hx List.not_mem_nil
  · split
    · exact h.pause _ fun x hx => absurd hx List.not_mem_nil
    · exact h.pause _ fun x hx => absurd hx List.not_mem_nil
  · rename_i hp
    exact h.refresh hp
  · exact h.pause _ fun x hx => absurd hx List.not_mem_nil
  · exact ⟨h, Advances.refl sys⟩

/-- What is read from the chain is no older than anything cached. -/
theorem rpc (h : Inv sys) (parsed : Option (Pubkey → Bool)) :
    Inv (rpc sys parsed) ∧ Advances sys (rpc sys parsed) := by
  unfold RpcPoller.rpc
  split
  · rename_i pk pubkeys parsed hp
    have hread : ∀ x ∈ readChunk sys parsed (pk :: pubkeys), x.2 = (sys.chain x.1).latest := by
      intro x hx
      obtain ⟨account, -, rfl⟩ := List.mem_map.mp hx
      rfl
    refine ⟨⟨h.cached, fun x hx => ?_, fun x hx e he hpk _ => ?_⟩,
      (Advances.refl sys).chain, (Advances.refl sys).entry, (Advances.refl sys).index⟩
    · rw [hread x hx]
      exact History.mem_latest _
    · rw [hread x hx]
      exact History.index_le_latest _ (hpk ▸ h.cached e he)
  · exact h.pause _ fun x hx => absurd hx List.not_mem_nil
  · exact ⟨h, Advances.refl sys⟩

theorem wake (h : Inv sys) (now : Instant) : Inv (wake sys now) ∧ Advances sys (wake sys now) := by
  unfold RpcPoller.wake
  split
  · exact h.pause _ fun x hx => absurd hx List.not_mem_nil
  · exact ⟨h, Advances.refl sys⟩

/-- The step lemma. -/
theorem step (h : Inv sys) (i : Input) :
    Inv (step cfg sys i).1 ∧ Advances sys (step cfg sys i).1 := by
  cases i with
  | take idx now =>
    exact h.keep _ sys.poller (NonceState.take_blockhash now) (fun _ hx => hx)
      fun _ _ _ _ _ => nofun
  | restore id =>
    exact h.keep _ sys.poller NonceState.restoreUnchanged_blockhash (fun _ hx => hx)
      fun _ _ _ _ _ => nofun
  | hookMiss id now =>
    exact h.keep _ sys.poller (NonceState.observedLanding_blockhash now) (fun _ hx => hx)
      fun _ _ _ _ _ => nofun
  | hook id => exact h.hook id
  | land account value => exact h.land account value
  | wake now => exact h.wake now
  | poll => exact h.poll
  | rpc parsed => exact h.rpc parsed

theorem start (accounts : List (NonceId × Pubkey)) (value : Pubkey → Hash) :
    Inv (start accounts value) where
  cached e he := by
    obtain ⟨t, ht, rfl⟩ := List.mem_map.mp he
    obtain ⟨a, -, rfl⟩ := List.mem_map.mp ht
    exact History.mem_start _
  known a ha := absurd ha List.not_mem_nil
  fresh a ha := absurd ha List.not_mem_nil

end Inv

/-! ## Runs -/

/-- What was handed out is a value the account has had, and no older than what `old`
caches. -/
structure Handed (old new : System) (t : Taken) : Prop where
  account : old.manager.entries[t.idx]?.map NonceEntry.pubkey = some t.account
  mem : t.blockhash ∈ (new.chain t.account).values
  index : old.cachedIndex t.idx ≤ (new.chain t.account).index t.blockhash

theorem Inv.cachedIndex_le (h : Inv sys) (k : ℕ) : sys.cachedIndex k ≤ sys.onChainIndex k := by
  unfold System.cachedIndex System.onChainIndex
  cases he : sys.manager.entries[k]? with
  | none => exact le_rfl
  | some e => exact History.index_le_latest _ (h.cached e (List.mem_of_getElem? he))

theorem Advances.cachedIndex_le {sys' : System} (h : Advances sys sys') (hc : Inv sys) (k : ℕ) :
    sys.cachedIndex k ≤ sys'.cachedIndex k := by
  unfold System.cachedIndex
  cases he : sys.manager.entries[k]? with
  | none => exact Nat.zero_le _
  | some e =>
    obtain ⟨e', he', hpk⟩ := h.entry_of he
    have hle := h.index k e e' he he'
    rw [(h.chain e.pubkey).index_eq (hc.cached e (List.mem_of_getElem? he))] at hle
    rw [he']
    simpa [hpk] using hle

/-- What a step hands out is what it finds cached. -/
theorem cached_of_taken {i : Input} {t : Taken} (ht : t ∈ (step cfg sys i).2) :
    ∃ e, sys.manager.entries[t.idx]? = some e ∧ e.pubkey = t.account ∧
      e.state.blockhash = t.blockhash := by
  cases i with
  | take idx now =>
    obtain ⟨u, hu, rfl⟩ := List.mem_map.mp ht
    obtain ⟨k, now', e, bh, ha, he, hs, rfl⟩ := NonceManager.mem_step_taken hu
    obtain ⟨rfl, rfl⟩ : idx = k ∧ now = now' := by simpa using ha
    exact ⟨e, he, rfl, by rw [hs]; rfl⟩
  | _ => cases ht

theorem Handed.of_taken {old : System} (h : Advances old sys) (ho : Inv old) (hs : Inv sys)
    {i : Input} {t : Taken} (ht : t ∈ (step cfg sys i).2) : Handed old sys t := by
  obtain ⟨e, he, hpk, hbh⟩ := cached_of_taken ht
  have hcached : sys.cachedIndex t.idx = (sys.chain t.account).index t.blockhash := by
    simp [System.cachedIndex, he, hpk, hbh]
  refine ⟨?_, ?_, hcached ▸ h.cachedIndex_le ho t.idx⟩
  · rw [← h.entry, he, ← hpk]
    rfl
  · rw [← hpk, ← hbh]
    exact hs.cached e (List.mem_of_getElem? he)

theorem Handed.mono {old new new' : System} {t : Taken} (h : Handed old new t)
    (hn : Advances new new') : Handed old new' t where
  account := h.account
  mem := (hn.chain t.account).mem h.mem
  index := by
    rw [(hn.chain t.account).index_eq h.mem]
    exact h.index

/-- The run lemma. -/
theorem Inv.run (h : Inv sys) (is : List Input) :
    Inv ((machine cfg).run sys is).1 ∧ Advances sys ((machine cfg).run sys is).1 ∧
      ∀ t ∈ ((machine cfg).run sys is).2, Handed sys ((machine cfg).run sys is).1 t := by
  refine (machine cfg).run_rule (fun _ s os => Inv s ∧ Advances sys s ∧ ∀ t ∈ os, Handed sys s t)
    sys ⟨h, Advances.refl sys, by simp⟩ ?_ is
  rintro - s os i ⟨hs, hadv, hos⟩
  obtain ⟨hs', hstep⟩ : Inv ((machine cfg).step s i).1 ∧
      Advances s ((machine cfg).step s i).1 := hs.step i
  refine ⟨hs', hadv.trans hstep h hs, fun t ht => ?_⟩
  rcases List.mem_append.mp ht with hold | hnew
  · exact (hos t hold).mono hstep
  · exact (Handed.of_taken hadv h hs hnew).mono hstep

/-- Between any two points of a run no cached value goes back in the history of its
account or ahead of it, and `take_ready` hands out no value older than one that was
cached before. -/
theorem cachedIndex_monotone (cfg : RpcPollerConfig) (accounts : List (NonceId × Pubkey))
    (value : Pubkey → Hash) (is js : List Input) :
    let s := ((machine cfg).run (start accounts value) is).1
    let r := (machine cfg).run s js
    (∀ k, s.cachedIndex k ≤ r.1.cachedIndex k ∧ r.1.cachedIndex k ≤ r.1.onChainIndex k) ∧
      ∀ t ∈ r.2, Handed s r.1 t := by
  intro s r
  have hs : Inv s := ((Inv.start accounts value).run is).1
  obtain ⟨hr, hadv, hhanded⟩ : Inv r.1 ∧ Advances s r.1 ∧ ∀ t ∈ r.2, Handed s r.1 t := hs.run js
  exact ⟨fun k => ⟨hadv.cachedIndex_le hs k, hr.cachedIndex_le k⟩, hhanded⟩

end SolanaBench.Nonce.RpcPoller
