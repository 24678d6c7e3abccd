import SolanaBench.Lib.AListWeight
import SolanaBench.TickTriggerBench.ObserverStream
import SolanaBench.TickTriggerBench.Runtime

/-! Custody of the transactions of a bench run: however its threads take their turns, each is in the
pool, in the queue of commands or with one command that was taken from there, and only signatures of
sent ones are looked for. -/
namespace SolanaBench.TickTriggerBench

/-! ## The observer at the pool -/

namespace Observer

variable (sched : TickSchedule) (s : State) (obs : EntryObservation)

/-- What an entry does to the pool, and the commands that it sends. -/
inductive Took (sched : TickSchedule) (s : State) (obs : EntryObservation) (r : State)
    (os : List Output) : Prop
  | nothing (hpool : r.pool = s.pool) (hcmds : (Effect.sent os).filterMap Bench.command? = [])
  | tick (n : ℕ) (tx : PreSignedTx) (hsched : (obs.slot, n) ∈ sched)
      (hin : s.pool.lookup (obs.slot, n) = some tx) (hpool : r.pool = s.pool.erase (obs.slot, n))
      (hcmds : (Effect.sent os).filterMap Bench.command? = [⟨tx, obs.slot, n, obs.observedAt⟩])

theorem took_fire (n : ℕ) : Took sched s obs (fire sched s obs n).1 (fire sched s obs n).2 := by
  unfold fire
  split
  · next hsched =>
    split
    · next tx hin => exact .tick n tx hsched hin rfl rfl
    · exact .nothing rfl rfl
  · exact .nothing rfl rfl

theorem took_onTick (n : ℕ) :
    Took sched s obs (onTick sched s obs n).1 (onTick sched s obs n).2.1 := by
  unfold onTick
  split
  · exact .nothing rfl rfl
  · cases took_fire sched s obs n with
    | nothing hpool hcmds => exact .nothing hpool hcmds
    | tick n tx hsched hin hpool hcmds => exact .tick n tx hsched hin hpool hcmds

theorem took_countEntry :
    Took sched s obs (countEntry sched s obs).1 (countEntry sched s obs).2.1 := by
  unfold countEntry
  dsimp only
  split
  · exact .nothing rfl rfl
  · split
    · next n _ =>
      let counted := s.slotStates.insert obs.slot ((s.slotState obs.slot).observe obs).1
      cases took_onTick sched { s with slotStates := counted } obs n with
      | nothing hpool hcmds => exact .nothing hpool hcmds
      | tick n tx hsched hin hpool hcmds => exact .tick n tx hsched hin hpool hcmds
    · refine .nothing rfl ?_
      split <;> rfl

theorem commands_sigMatch : (Effect.sent (sigMatch s obs)).filterMap Bench.command? = [] := by
  unfold sigMatch Effect.sent
  rw [List.filterMap_map, List.filterMap_filterMap]
  exact List.filterMap_eq_nil_iff.mpr fun sig _ => rfl

theorem entered_pool (k : ℕ) : (s.entered k).pool = s.pool ∧
    (s.entered k).pendingSigs = s.pendingSigs := by
  unfold State.entered prune
  split <;> exact ⟨rfl, rfl⟩

theorem took_processEntry :
    Took sched s obs (processEntry sched s obs).1 (processEntry sched s obs).2 := by
  obtain ⟨hpool, -⟩ := entered_pool s obs.slot
  cases hwarm : s.inWarmup obs.slot with
  | true =>
    rw [processEntry_of_warmup hwarm]
    exact .nothing hpool (commands_sigMatch _ obs)
  | false =>
    rw [processEntry_of_counted hwarm]
    have hrest : ∀ os : List Output, (Effect.sent (os ++ if (countEntry sched (s.entered obs.slot)
        obs).2.2 then sigMatch (countEntry sched (s.entered obs.slot) obs).1 obs else [])).filterMap
          Bench.command? = (Effect.sent os).filterMap Bench.command? := by
      intro os
      rw [Effect.sent_append, List.filterMap_append]
      split
      · rw [commands_sigMatch _ obs, List.append_nil]
      · exact List.append_nil _
    cases took_countEntry sched (s.entered obs.slot) obs with
    | nothing hp hcmds => exact .nothing (hp.trans hpool) ((hrest _).trans hcmds)
    | tick n tx hsched hin hp hcmds =>
      rw [hpool] at hin hp
      exact .tick n tx hsched hin hp ((hrest _).trans hcmds)

theorem countEntry_pendingSigs : (countEntry sched s obs).1.pendingSigs = s.pendingSigs := by
  unfold countEntry onTick fire
  dsimp only
  split
  · rfl
  · split
    · split
      · rfl
      · split
        · split <;> rfl
        · rfl
    · rfl

/-- The observer looks for the pending signatures, and forgets none. -/
theorem matched_processEntry : (processEntry sched s obs).1.pendingSigs = s.pendingSigs ∧
    ∀ ev ∈ (Effect.sent (processEntry sched s obs).2).filterMap Bench.matched?,
      ev.signature ∈ s.pendingSigs := by
  obtain ⟨-, hpending⟩ := entered_pool s obs.slot
  have hmatch : ∀ (t : State) (ev : MatchEvent),
      .send (.matched ev) ∈ sigMatch t obs → ev.signature ∈ t.pendingSigs := by
    intro t ev hev
    obtain ⟨sig, hsig, heq⟩ := List.mem_map.mp hev
    cases heq
    exact of_decide_eq_true (List.mem_filter.mp hsig).2
  have hsent : ∀ (os : List Output) (ev : MatchEvent),
      ev ∈ (Effect.sent os).filterMap Bench.matched? → .send (.matched ev) ∈ os := by
    intro os ev hev
    obtain ⟨x, hx, hxev⟩ := List.mem_filterMap.mp hev
    obtain ⟨o, ho, hox⟩ := List.mem_filterMap.mp hx
    cases o <;> cases hox
    cases x <;> cases hxev
    exact ho
  cases hwarm : s.inWarmup obs.slot with
  | true =>
    rw [processEntry_of_warmup hwarm]
    exact ⟨hpending, fun ev hev => hpending ▸ hmatch _ ev (hsent _ ev hev)⟩
  | false =>
    rw [processEntry_of_counted hwarm]
    have hcount := countEntry_pendingSigs sched (s.entered obs.slot) obs
    refine ⟨hcount.trans hpending, fun ev hev => ?_⟩
    rcases List.mem_append.mp (hsent _ ev hev) with hold | hnew
    · exact absurd hold matched_notMem_countEntry
    · split at hnew
      · rw [← hpending, ← hcount]
        exact hmatch _ ev hnew
      · exact absurd hnew List.not_mem_nil

end Observer

namespace Bench

/-! ## The invariants -/

def signed? : Event → Option Preparer.Signed
  | .signed x => some x
  | _ => none

def expired? : Event → Option SendCommand
  | .expired cmd => some cmd
  | _ => none

def sent? : Event → Option SendCommand
  | .sent cmd _ => some cmd
  | _ => none

/-- The transactions signed, by their signatures. -/
def signedIn (os : List Event) : List Signature :=
  (os.filterMap signed?).map fun x => x.tx.signature

def expiredIn (os : List Event) : List Signature :=
  (os.filterMap expired?).map fun cmd => cmd.tx.signature

def sentIn (os : List Event) : List Signature := (os.filterMap sent?).map fun cmd => cmd.tx.signature

def carries (g : Signature) (_ : ℕ × ℕ) (tx : PreSignedTx) : ℕ := if tx.signature = g then 1 else 0

/-- It was signed for this tick. -/
def SignedFor (os : List Event) (key : ℕ × ℕ) (tx : PreSignedTx) : Prop :=
  ∃ x, .signed x ∈ os ∧ x.entry.key = key ∧ x.tx = tx

/-- The command is for a scheduled tick, with the transaction signed for it. -/
structure Own (cfg : Config) (os : List Event) (cmd : SendCommand) : Prop where
  scheduled : (cmd.scheduleSlot, cmd.scheduleTick) ∈ cfg.schedule
  signed : SignedFor os (cmd.scheduleSlot, cmd.scheduleTick) cmd.tx

/-- No transaction is in two places. -/
structure Custodial (cfg : Config) (os : List Event) (st : State) : Prop where
  counted : ∀ g, AList.weight (carries g) st.observer.pool +
    (st.sendQueue.map fun cmd => cmd.tx.signature).count g + (expiredIn os).count g +
      (sentIn os).count g ≤ (signedIn os).count g
  pooled : AList.Each (SignedFor os) st.observer.pool
  queued : ∀ cmd ∈ st.sendQueue, Own cfg os cmd
  sent : ∀ cmd now, .sent cmd now ∈ os → Own cfg os cmd ∧
    Instant.saturatingDurationSince now cmd.tx.builtAt ≤ cfg.blockhashMaxAge

/-- Signatures are looked for once they are sent. -/
structure Watched (os : List Event) (st : State) : Prop where
  pending : ∀ sig ∈ st.observer.pendingSigs, sig ∈ sentIn os
  seen : EverySplit (fun pre o => ∀ ev, o = .seen ev → ev.signature ∈ sentIn pre) os
  matched : ∀ ev ∈ st.matchQueue, .seen ev ∈ os

section

variable {cfg : Config} {os es : List Event} {st st' : State} {key : ℕ × ℕ} {tx : PreSignedTx}
  {cmd : SendCommand}

theorem SignedFor.append (h : SignedFor os key tx) (es : List Event) :
    SignedFor (os ++ es) key tx := by
  obtain ⟨x, hx, hkey, htx⟩ := h
  exact ⟨x, List.mem_append_left es hx, hkey, htx⟩

theorem Own.append (h : Own cfg os cmd) (es : List Event) : Own cfg (os ++ es) cmd :=
  ⟨h.scheduled, h.signed.append es⟩

theorem signedIn_append (os es : List Event) : signedIn (os ++ es) = signedIn os ++ signedIn es := by
  simp [signedIn]

theorem expiredIn_append (os es : List Event) :
    expiredIn (os ++ es) = expiredIn os ++ expiredIn es := by
  simp [expiredIn]

theorem sentIn_append (os es : List Event) : sentIn (os ++ es) = sentIn os ++ sentIn es := by
  simp [sentIn]

/-! ### Custody -/

/-- Steps that touch neither the pool nor the queue of commands. -/
theorem Custodial.frame (h : Custodial cfg os st) (hpool : st'.observer.pool = st.observer.pool)
    (hqueue : st'.sendQueue = st.sendQueue)
    (hes : ∀ o ∈ es, signed? o = none ∧ expired? o = none ∧ sent? o = none) :
    Custodial cfg (os ++ es) st' := by
  have hsigned : signedIn es = [] :=
    List.map_eq_nil_iff.mpr (List.filterMap_eq_nil_iff.mpr fun o ho => (hes o ho).1)
  have hexpired : expiredIn es = [] :=
    List.map_eq_nil_iff.mpr (List.filterMap_eq_nil_iff.mpr fun o ho => (hes o ho).2.1)
  have hsent : sentIn es = [] :=
    List.map_eq_nil_iff.mpr (List.filterMap_eq_nil_iff.mpr fun o ho => (hes o ho).2.2)
  refine ⟨fun g => ?_, fun key tx htx => ?_, fun cmd hcmd => ?_, fun cmd now hcmd => ?_⟩
  · rw [hpool, hqueue, signedIn_append, expiredIn_append, sentIn_append, hsigned, hexpired, hsent]
    simpa using h.counted g
  · rw [hpool] at htx
    exact (h.pooled key tx htx).append es
  · rw [hqueue] at hcmd
    exact (h.queued cmd hcmd).append es
  · rcases List.mem_append.mp hcmd with hold | hnew
    · exact ⟨(h.sent cmd now hold).1.append es, (h.sent cmd now hold).2⟩
    · exact absurd (hes _ hnew).2.2 (by simp [sent?])

theorem Custodial.erase (h : Custodial cfg os st) (key : ℕ × ℕ)
    (hpool : st'.observer.pool = st.observer.pool.erase key)
    (hqueue : st'.sendQueue = st.sendQueue) : Custodial cfg os st' := by
  refine ⟨fun g => ?_, ?_, ?_, h.sent⟩
  · have hcounted := h.counted g
    have herase := AList.weight_erase (carries g) st.observer.pool key
    rw [hpool, hqueue]
    omega
  · rw [hpool]
    exact h.pooled.erase key
  · rw [hqueue]
    exact h.queued

theorem Custodial.sign (h : Custodial cfg os st) (x : Preparer.Signed)
    (hpool : st'.observer.pool = st.observer.pool.insert x.entry.key x.tx)
    (hqueue : st'.sendQueue = st.sendQueue) : Custodial cfg (os ++ [.signed x]) st' := by
  refine ⟨fun g => ?_, ?_, fun cmd hcmd => ?_, fun cmd now hcmd => ?_⟩
  · have hcounted := h.counted g
    have hinsert := AList.weight_insert (carries g) st.observer.pool x.entry.key x.tx
    have hnew : signedIn [Event.signed x] = [x.tx.signature] := rfl
    have hexpired : expiredIn [Event.signed x] = [] := rfl
    have hsent : sentIn [Event.signed x] = [] := rfl
    rw [hpool, hqueue, signedIn_append, expiredIn_append, sentIn_append, hnew, hexpired, hsent,
      List.append_nil, List.append_nil, List.count_append, List.count_singleton]
    unfold carries at hinsert hcounted ⊢
    simp only [beq_iff_eq] at hinsert ⊢
    omega
  · rw [hpool]
    exact AList.Each.insert (fun key tx htx => (h.pooled key tx htx).append _)
      ⟨x, List.mem_append_right os (List.mem_singleton_self _), rfl, rfl⟩
  · rw [hqueue] at hcmd
    exact (h.queued cmd hcmd).append _
  · rcases List.mem_append.mp hcmd with hold | hnew
    · exact ⟨(h.sent cmd now hold).1.append _, (h.sent cmd now hold).2⟩
    · cases List.mem_singleton.mp hnew

theorem Custodial.take (h : Custodial cfg os st) {n : ℕ} {obs : EntryObservation}
    (hsched : (obs.slot, n) ∈ cfg.schedule) (hin : st.observer.pool.lookup (obs.slot, n) = some tx)
    (hpool : st'.observer.pool = st.observer.pool.erase (obs.slot, n))
    (hqueue : st'.sendQueue.Sublist (st.sendQueue ++ [⟨tx, obs.slot, n, obs.observedAt⟩])) :
    Custodial cfg os st' := by
  refine ⟨fun g => ?_, ?_, fun cmd hcmd => ?_, h.sent⟩
  · have hcounted := h.counted g
    have herase := AList.weight_erase (carries g) st.observer.pool (obs.slot, n)
    have hqueued := (hqueue.map fun cmd => cmd.tx.signature).count_le g
    rw [AList.weightOf_eq hin] at herase
    rw [List.map_append, List.count_append, List.map_singleton, List.count_singleton] at hqueued
    rw [hpool]
    unfold carries at herase hcounted ⊢
    simp only [beq_iff_eq] at herase hqueued
    omega
  · rw [hpool]
    exact h.pooled.erase _
  · rcases List.mem_append.mp (hqueue.subset hcmd) with hold | hnew
    · exact h.queued cmd hold
    · rw [List.mem_singleton.mp hnew]
      exact ⟨hsched, h.pooled _ tx hin⟩

theorem Custodial.observe (h : Custodial cfg os st) (obs : EntryObservation) :
    Custodial cfg (os ++ (st.observe cfg obs).2) (st.observe cfg obs).1 := by
  have hseen : ∀ o ∈ (st.observe cfg obs).2,
      signed? o = none ∧ expired? o = none ∧ sent? o = none := by
    intro o ho
    obtain ⟨ev, -, rfl⟩ := List.mem_map.mp ho
    exact ⟨rfl, rfl, rfl⟩
  cases Observer.took_processEntry cfg.schedule st.observer obs with
  | nothing hpool hcmds =>
    refine h.frame hpool ?_ hseen
    unfold State.observe
    dsimp only
    rw [hcmds]
    rfl
  | tick n tx hsched hin hpool hcmds =>
    have htake : Custodial cfg os (st.observe cfg obs).1 := by
      refine h.take hsched hin hpool ?_
      unfold State.observe
      dsimp only
      rw [hcmds]
      exact BoundedChannel.run_sublist ..
    exact htake.frame rfl rfl hseen

theorem Custodial.dispatch (h : Custodial cfg os st) (now sendAt : Instant) :
    Custodial cfg (os ++ (st.dispatch cfg now sendAt).2) (st.dispatch cfg now sendAt).1 := by
  unfold State.dispatch
  split
  · rw [List.append_nil]
    exact h
  · next cmd rest hqueue =>
    have hown : Own cfg os cmd := h.queued cmd (by rw [hqueue]; exact List.mem_cons_self)
    have hrest : ∀ c ∈ rest, Own cfg os c := fun c hc =>
      h.queued c (by rw [hqueue]; exact List.mem_cons_of_mem cmd hc)
    have hcounted := fun g => h.counted g
    simp only [hqueue, List.map_cons, List.count_cons] at hcounted
    split
    · split
      · have hsigned : signedIn [Event.expired cmd] = [] := rfl
        have hexpired : expiredIn [Event.expired cmd] = [cmd.tx.signature] := rfl
        have hsent : sentIn [Event.expired cmd] = [] := rfl
        refine ⟨fun g => ?_, fun key tx htx => (h.pooled key tx htx).append _,
          fun c hc => (hrest c hc).append _, fun c t hc => ?_⟩
        · rw [signedIn_append, expiredIn_append, sentIn_append, hsigned, hexpired, hsent,
            List.append_nil, List.append_nil, List.count_append, List.count_singleton]
          have hg := hcounted g
          dsimp only
          omega
        · rcases List.mem_append.mp hc with hold | hnew
          · exact ⟨(h.sent c t hold).1.append _, (h.sent c t hold).2⟩
          · cases List.mem_singleton.mp hnew
      · next hyoung =>
        have hsigned : signedIn [Event.sent cmd now] = [] := rfl
        have hexpired : expiredIn [Event.sent cmd now] = [] := rfl
        have hsent : sentIn [Event.sent cmd now] = [cmd.tx.signature] := rfl
        refine ⟨fun g => ?_, fun key tx htx => (h.pooled key tx htx).append _,
          fun c hc => (hrest c hc).append _, fun c t hc => ?_⟩
        · rw [signedIn_append, expiredIn_append, sentIn_append, hsigned, hexpired, hsent,
            List.append_nil, List.append_nil, List.count_append, List.count_singleton]
          have hg := hcounted g
          dsimp only
          omega
        · rcases List.mem_append.mp hc with hold | hnew
          · exact ⟨(h.sent c t hold).1.append _, (h.sent c t hold).2⟩
          · cases List.mem_singleton.mp hnew
            exact ⟨hown.append _, not_lt.mp hyoung⟩
    · rw [List.append_nil]
      exact h

/-! ### Matches -/

theorem Watched.append (h : Watched os st)
    (hpending : ∀ sig ∈ st'.observer.pendingSigs, sig ∈ st.observer.pendingSigs ∨ sig ∈ sentIn es)
    (hseen : ∀ ev, .seen ev ∈ es → ev.signature ∈ st.observer.pendingSigs)
    (hmatch : ∀ ev ∈ st'.matchQueue, ev ∈ st.matchQueue ∨ .seen ev ∈ es) :
    Watched (os ++ es) st' := by
  refine ⟨fun sig hsig => ?_, ?_, fun ev hev => ?_⟩
  · rw [sentIn_append]
    rcases hpending sig hsig with hold | hnew
    · exact List.mem_append_left _ (h.pending sig hold)
    · exact List.mem_append_right _ hnew
  · clear hpending hmatch
    induction es using List.reverseRecOn with
    | nil =>
      rw [List.append_nil]
      exact h.seen
    | append_singleton es o ih =>
      rw [← List.append_assoc, EverySplit.snoc_iff]
      refine ⟨ih fun ev hev => hseen ev (List.mem_append_left _ hev), ?_⟩
      rintro ev rfl
      rw [sentIn_append]
      exact List.mem_append_left _ (h.pending _ (hseen ev (by simp)))
  · rcases hmatch ev hev with hold | hnew
    · exact List.mem_append_left es (h.matched ev hold)
    · exact List.mem_append_right os hnew

theorem Watched.observe (h : Watched os st) (obs : EntryObservation) :
    Watched (os ++ (st.observe cfg obs).2) (st.observe cfg obs).1 := by
  obtain ⟨hpending, hsigs⟩ := Observer.matched_processEntry cfg.schedule st.observer obs
  refine h.append (fun sig hsig => Or.inl (hpending ▸ hsig)) (fun ev hev => ?_) fun ev hev => ?_
  · obtain ⟨m, hm, heq⟩ := List.mem_map.mp hev
    exact hsigs ev (Event.seen.inj heq ▸ hm)
  · exact (BoundedChannel.mem_of_mem_run hev).imp_right fun hnew => List.mem_map.mpr ⟨ev, hnew, rfl⟩

end

end Bench
end SolanaBench.TickTriggerBench
