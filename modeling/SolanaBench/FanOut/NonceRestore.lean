import SolanaBench.FanOut.Matcher
import SolanaBench.Nonce.Allocation

/-! Restores of unmatched nonces. The matcher gives back the nonce of a trigger by its id
alone, while the preparer and the feeds of the nonce manager move on in between. -/
namespace SolanaBench.FanOut.NonceRestore

open Nonce Matcher

/-- The matcher thread between two accesses to shared state, and the nonce pool.
`sweeping` is what is left of the second loop of `sweep_unmatched_nonces`. -/
structure System where
  manager : NonceManager
  matcher : State := {}
  sweeping : List (TriggerId × TriggerGroup) := []
  sweepNow : Instant := 0

structure Config extends MatcherConfig where
  newTriggerId : ℕ → ℕ → NonceId → TriggerId

inductive Input
  /-- One iteration of `take_ready`, for the schedule entry at the front. -/
  | take (slot tick idx : ℕ) (now : Instant)
  /-- A landing, an account update, a timeout or a refresh. -/
  | feed (a : NonceManager.Action)
  | register (reg : RegisterEvent)
  | send (ev : SendEvent)
  | matched (ev : MatchEvent) (cache : SlotHashCache) (now : Instant)
  | deadlineSweep (now : Instant)
  | nonceSweep (now : Instant)
  | restoreNext

/-- What is logged: a nonce handed out for a trigger, a restore on behalf of a trigger
that changed the nonce, and everything the matcher emits. -/
inductive Entry
  | took (tid : TriggerId) (id : NonceId)
  | restored (tid : TriggerId) (id : NonceId)
  | out (o : Output)

/-- `restore_unchanged` returns true. -/
def restores (m : NonceManager) (id : NonceId) : Bool :=
  (m.idIndex id).any fun idx => (m.entries[idx]?).any fun e => e.state.restoreUnchanged.2

def isFeed : NonceManager.Action → Bool
  | .probe _ _ | .restoreUnchanged _ => false
  | _ => true

/-- The manager after the calls the matcher made. -/
def applyCalls (m : NonceManager) (os : List Output) : NonceManager :=
  (Effect.sent os).foldl (fun m e => match e with | .nonce a => (m.step a).1 | _ => m) m

/-- While a nonce sweep is under way the matcher serves nothing else. -/
def whenIdle (sys : System) (r : State × List Output) : System × List Entry :=
  if sys.sweeping = [] then
    ({ sys with matcher := r.1, manager := applyCalls sys.manager r.2 }, r.2.map .out)
  else (sys, [])

def restoreNext (cfg : Config) (sys : System) : System × List Entry :=
  match sys.sweeping with
  | [] => (sys, [])
  | (tid, g) :: rest =>
    if skipped cfg.toMatcherConfig sys.matcher sys.sweepNow tid g then
      ({ sys with sweeping := rest }, [])
    else
      ({ sys with
          manager := (sys.manager.step (.restoreUnchanged g.nonceId)).1
          matcher := markRestored sys.matcher tid
          sweeping := rest },
        if restores sys.manager g.nonceId then
          [.out (.fetchAdd .nonceRestoredUnmatched 1), .restored tid g.nonceId]
        else [])

def step (cfg : Config) (sys : System) : Input → System × List Entry
  | .take slot tick idx now =>
    let r := sys.manager.step (.probe idx now)
    ({ sys with manager := r.1 }, r.2.map fun t => .took (cfg.newTriggerId slot tick t.1) t.1)
  | .feed a => (if isFeed a then { sys with manager := (sys.manager.step a).1 } else sys, [])
  | .register reg => whenIdle sys (registerAttempt sys.matcher reg, [])
  | .send ev => whenIdle sys (handleSendEvent cfg.toMatcherConfig sys.matcher ev)
  | .matched ev cache now =>
    whenIdle sys (handleMatchEvent cfg.toMatcherConfig sys.matcher ev cache now)
  | .deadlineSweep now => whenIdle sys (sweepDeadlines cfg.toMatcherConfig sys.matcher now)
  | .nonceSweep now =>
    (if sys.sweeping = [] ∧ cfg.nonceMode then
      { sys with
        sweeping := (perTrigger sys.matcher).entries.map fun e => (e.1, e.2)
        sweepNow := now }
    else sys, [])
  | .restoreNext => restoreNext cfg sys

def machine (cfg : Config) : EventMachine System Input Entry where
  step := step cfg

/-- The trigger for which the nonce was last taken. -/
def taker? (id : NonceId) : Entry → Option TriggerId
  | .took tid id' => if id' = id then some tid else none
  | _ => none

def lastTaker (id : NonceId) (log : List Entry) : Option TriggerId :=
  log.reverse.findSome? (taker? id)

/-- The nonce was last taken for the trigger on whose behalf it is restored. -/
def OwnRestore (log : List Entry) : Entry → Prop
  | .restored tid id => lastTaker id log = some tid
  | _ => True

/-- A nonce is taken only while no other trigger that could still be restored is
registered with it, and a trigger registers only while it is the last taker of its nonce. -/
def Undisturbed (cfg : Config) (sys : System) (pre : List Input) : Input → Prop
  | .take slot tick idx _ =>
    ∀ e ∈ ((machine cfg).run sys pre).1.manager.entries[idx]?, e.state.isReady = true →
      ∀ a ∈ ((machine cfg).run sys pre).1.matcher.attempts.entries,
        a.2.reg.nonceAccountId = e.id →
          a.1.1 ∉ ((machine cfg).run sys pre).1.matcher.restoredTriggers →
            a.1.1 = cfg.newTriggerId slot tick e.id
  | .register reg =>
    ((machine cfg).run sys pre).1.sweeping = [] →
      lastTaker reg.nonceAccountId ((machine cfg).run sys pre).2 = some reg.triggerId
  | _ => True

/-! ## The log -/

theorem lastTaker_append (id : NonceId) (log es : List Entry) :
    lastTaker id (log ++ es) = (lastTaker id es).or (lastTaker id log) := by
  simp [lastTaker, List.findSome?_append]

theorem lastTaker_eq_none {id : NonceId} {es : List Entry} (h : ∀ e ∈ es, taker? id e = none) :
    lastTaker id es = none := by
  unfold lastTaker
  rw [List.findSome?_eq_none_iff]
  intro e he
  exact h e (List.mem_reverse.mp he)

theorem taker?_out (id : NonceId) (os : List Output) :
    ∀ e ∈ os.map Entry.out, taker? id e = none := by
  intro e he
  obtain ⟨o, -, rfl⟩ := List.mem_map.mp he
  rfl

/-! ## What the matcher's handlers keep -/

/-- No attempt is new, and the restored triggers are the same. -/
structure Retains (st st' : State) : Prop where
  attempts : ∀ a ∈ st'.attempts.entries, ∃ b ∈ st.attempts.entries, b.1 = a.1 ∧ b.2.reg = a.2.reg
  restored : st'.restoredTriggers = st.restoredTriggers

theorem Retains.refl (st : State) : Retains st st := ⟨fun a ha => ⟨a, ha, rfl, rfl⟩, rfl⟩

theorem Retains.trans {st st' st'' : State} (h : Retains st st') (h' : Retains st' st'') :
    Retains st st'' where
  attempts a ha := by
    obtain ⟨b, hb, hkey, hreg⟩ := h'.attempts a ha
    obtain ⟨c, hc, hkey', hreg'⟩ := h.attempts b hb
    exact ⟨c, hc, hkey'.trans hkey, hreg'.trans hreg⟩
  restored := h'.restored.trans h.restored

theorem mem_of_mem_erase {β : Key → Type*} {m : AList β} {key : Key} {a : Sigma β}
    (h : a ∈ (m.erase key).entries) : a ∈ m.entries :=
  List.Sublist.mem h (List.kerase_sublist key m.entries)

theorem handleSendEvent_retains (cfg : MatcherConfig) (st : State) (ev : SendEvent) :
    Retains st (handleSendEvent cfg st ev).1 := by
  unfold handleSendEvent
  cases hatt : st.attempts.lookup ev.key with
  | none => exact Retains.refl st
  | some rec =>
    dsimp only
    cases ev.error with
    | some err => exact ⟨fun a ha => ⟨a, mem_of_mem_erase ha, rfl, rfl⟩, rfl⟩
    | none =>
      refine ⟨fun a ha => ?_, rfl⟩
      rcases List.mem_cons.mp ha with rfl | hold
      · exact ⟨⟨ev.key, rec⟩, AList.mem_lookup_iff.mp hatt, rfl, rfl⟩
      · exact ⟨a, mem_of_mem_erase hold, rfl, rfl⟩

theorem handleMatchEvent_retains (cfg : MatcherConfig) (st : State) (ev : MatchEvent)
    (cache : SlotHashCache) (now : Instant) :
    Retains st (handleMatchEvent cfg st ev cache now).1 := by
  unfold handleMatchEvent
  cases st.sigToKey.lookup ev.signature with
  | none => exact Retains.refl st
  | some winner =>
    refine ⟨fun a ha => ⟨a, ?_, rfl, rfl⟩, rfl⟩
    dsimp only at ha
    generalize siblingKeys st winner.1 = keys at ha
    induction keys using List.reverseRecOn with
    | nil => exact ha
    | append_singleton keys key ih =>
      rw [List.foldl_append] at ha
      exact ih (mem_of_mem_erase ha)

theorem closePending_retains (cfg : MatcherConfig) (now : Instant) (st : State) (key : Key) :
    Retains st (closePending cfg now st key).1 := by
  unfold closePending
  cases st.attempts.lookup key with
  | none => exact Retains.refl st
  | some rec => exact ⟨fun a ha => ⟨a, mem_of_mem_erase ha, rfl, rfl⟩, rfl⟩

theorem sweepDeadlines_retains (cfg : MatcherConfig) (st : State) (now : Instant) :
    Retains st (sweepDeadlines cfg st now).1 :=
  (closingMachine cfg now).run_invariant (Retains st) (Retains.refl st)
    (fun st' key h => h.trans (closePending_retains cfg now st' key)) _

/-- An attempt changes no group's nonce, and starts a group with its own. -/
theorem mem_addAttempt {groups : Groups} {tid : TriggerId} {rec : AttemptRecord}
    {q : Sigma fun _ : TriggerId => TriggerGroup} (h : q ∈ (addAttempt groups tid rec).entries) :
    (∃ q' ∈ groups.entries, q'.1 = q.1 ∧ q'.2.nonceId = q.2.nonceId) ∨
      tid = q.1 ∧ rec.reg.nonceAccountId = q.2.nonceId := by
  unfold addAttempt at h
  cases hg : groups.lookup tid with
  | some g =>
    rw [hg] at h
    rcases List.mem_cons.mp h with rfl | hrest
    · exact Or.inl ⟨⟨tid, g⟩, AList.mem_lookup_iff.mp hg, rfl, rfl⟩
    · exact Or.inl ⟨q, List.Sublist.mem hrest (List.kerase_sublist _ _), rfl, rfl⟩
  | none =>
    rw [hg] at h
    rcases List.mem_cons.mp h with rfl | hrest
    · exact Or.inr ⟨rfl, rfl⟩
    · exact Or.inl ⟨q, List.Sublist.mem hrest (List.kerase_sublist _ _), rfl, rfl⟩

/-- A group stands for an attempt with its trigger and its nonce. -/
theorem mem_perTrigger {st : State} {q : Sigma fun _ : TriggerId => TriggerGroup}
    (h : q ∈ (perTrigger st).entries) :
    ∃ a ∈ st.attempts.entries, a.1.1 = q.1 ∧ a.2.reg.nonceAccountId = q.2.nonceId := by
  unfold perTrigger at h
  generalize st.attempts.entries = attempts at h ⊢
  induction attempts using List.reverseRecOn generalizing q with
  | nil => cases h
  | append_singleton attempts a ih =>
    rw [List.foldl_append] at h
    rcases mem_addAttempt h with ⟨q', hq', hkey, hnonce⟩ | ⟨hkey, hnonce⟩
    · obtain ⟨b, hb, hkey', hnonce'⟩ := ih hq'
      exact ⟨b, List.mem_append_left _ hb, hkey'.trans hkey, hnonce'.trans hnonce⟩
    · exact ⟨a, by simp, hkey, hnonce⟩

/-! ## The invariant -/

/-- An attempt that could still be restored belongs to the last taker of its nonce, and
the groups of a sweep under way stand for such attempts. -/
structure Inv (sys : System) (log : List Entry) : Prop where
  owned : ∀ a ∈ sys.matcher.attempts.entries, a.1.1 ∉ sys.matcher.restoredTriggers →
    lastTaker a.2.reg.nonceAccountId log = some a.1.1
  queued : ∀ q ∈ sys.sweeping, ∃ a ∈ sys.matcher.attempts.entries,
    a.1.1 = q.1 ∧ a.2.reg.nonceAccountId = q.2.nonceId

namespace Inv

variable {cfg : Config} {sys : System} {log : List Entry}

theorem whenIdle (h : Inv sys log) {r : State × List Output} (hr : Retains sys.matcher r.1) :
    Inv (whenIdle sys r).1 (log ++ (whenIdle sys r).2) := by
  unfold NonceRestore.whenIdle
  split_ifs with hidle
  · refine ⟨fun a ha hn => ?_, fun q hq => ?_⟩
    · obtain ⟨b, hb, hkey, hreg⟩ := hr.attempts a ha
      rw [lastTaker_append, lastTaker_eq_none (taker?_out _ _), Option.none_or, ← hreg, ← hkey]
      apply h.owned b hb
      rw [hkey]
      exact fun hmem => hn (hr.restored ▸ hmem)
    · have hq : q ∈ sys.sweeping := hq
      rw [hidle] at hq
      cases hq
  · rw [List.append_nil]
    exact h

theorem register (h : Inv sys log) (reg : RegisterEvent)
    (hlast : sys.sweeping = [] → lastTaker reg.nonceAccountId log = some reg.triggerId) :
    Inv (step cfg sys (.register reg)).1 (log ++ (step cfg sys (.register reg)).2) := by
  show Inv (NonceRestore.whenIdle sys _).1 (log ++ (NonceRestore.whenIdle sys _).2)
  unfold NonceRestore.whenIdle
  split_ifs with hidle
  · simp only [List.map_nil, List.append_nil]
    refine ⟨fun a ha hn => ?_, fun q hq => ?_⟩
    · rcases List.mem_cons.mp ha with rfl | hold
      · exact hlast hidle
      · exact h.owned a (mem_of_mem_erase hold) hn
    · have hq : q ∈ sys.sweeping := hq
      rw [hidle] at hq
      cases hq
  · rw [List.append_nil]
    exact h

theorem take (h : Inv sys log) (slot tick idx : ℕ) (now : Instant)
    (hfree : ∀ e ∈ sys.manager.entries[idx]?, e.state.isReady = true →
      ∀ a ∈ sys.matcher.attempts.entries, a.2.reg.nonceAccountId = e.id →
        a.1.1 ∉ sys.matcher.restoredTriggers → a.1.1 = cfg.newTriggerId slot tick e.id) :
    Inv (step cfg sys (.take slot tick idx now)).1
      (log ++ (step cfg sys (.take slot tick idx now)).2) := by
  refine ⟨fun a ha hn => ?_, h.queued⟩
  have hold := h.owned a ha hn
  show lastTaker _ (log ++ (sys.manager.step (.probe idx now)).2.map _) = _
  rw [lastTaker_append]
  cases hout : (sys.manager.step (.probe idx now)).2 with
  | nil => exact hold
  | cons t rest =>
    obtain ⟨k, now', e, bh, hact, he, hs, rfl⟩ :=
      NonceManager.mem_step_taken (hout ▸ List.mem_cons_self : t ∈ (sys.manager.step _).2)
    obtain ⟨rfl, rfl⟩ : idx = k ∧ now = now' := by simpa using hact
    have hone := NonceManager.step_probe_of_ready he hs now
    obtain rfl : rest = [] := by
      rw [hone] at hout
      exact (List.cons.inj hout).2.symm
    by_cases hid : e.id = a.2.reg.nonceAccountId
    · have hself := hfree e he (by rw [hs]; rfl) a ha hid.symm hn
      simp [lastTaker, taker?, hid, hself]
    · simp [lastTaker, taker?, hid]
      exact hold

theorem nonceSweep (h : Inv sys log) (now : Instant) :
    Inv (step cfg sys (.nonceSweep now)).1 (log ++ (step cfg sys (.nonceSweep now)).2) := by
  show Inv (if _ then _ else _) (log ++ [])
  rw [List.append_nil]
  split_ifs
  · refine ⟨h.owned, fun q hq => ?_⟩
    obtain ⟨e, he, rfl⟩ := List.mem_map.mp hq
    exact mem_perTrigger he
  · exact h

/-- The step that restores: the trigger is still the last taker of its nonce. -/
theorem restoreNext (h : Inv sys log) :
    Inv (restoreNext cfg sys).1 (log ++ (restoreNext cfg sys).2) ∧
      (EverySplit OwnRestore log → EverySplit OwnRestore (log ++ (restoreNext cfg sys).2)) := by
  unfold NonceRestore.restoreNext
  cases hq : sys.sweeping with
  | nil =>
    dsimp only
    rw [List.append_nil]
    exact ⟨h, id⟩
  | cons q rest =>
    obtain ⟨tid, g⟩ := q
    have hrest : ∀ q ∈ rest, q ∈ sys.sweeping := fun q hmem => hq ▸ List.mem_cons_of_mem _ hmem
    dsimp only
    split_ifs with hskip hres
    · rw [List.append_nil]
      exact ⟨⟨h.owned, fun q hmem => h.queued q (hrest q hmem)⟩, id⟩
    · have hout : ∀ id, lastTaker id (log ++ [.out (.fetchAdd .nonceRestoredUnmatched 1),
          .restored tid g.nonceId]) = lastTaker id log := by
        intro id
        rw [lastTaker_append, lastTaker_eq_none (by simp [taker?]), Option.none_or]
      refine ⟨⟨fun a ha hn => ?_, fun q hmem => h.queued q (hrest q hmem)⟩, fun hlog => ?_⟩
      · rw [hout]
        exact h.owned a ha fun hmem => hn (Finset.mem_insert_of_mem hmem)
      · have hfree : tid ∉ sys.matcher.restoredTriggers := by
          intro hmem
          simp [skipped, hmem] at hskip
        obtain ⟨a, ha, hkey, hnonce⟩ := h.queued (tid, g) (hq ▸ List.mem_cons_self)
        have hlast := h.owned a ha (by rw [hkey]; exact hfree)
        rw [hkey, hnonce] at hlast
        have hcounted : EverySplit OwnRestore (log ++ [.out (.fetchAdd .nonceRestoredUnmatched 1)]) :=
          hlog.snoc trivial
        have hboth := hcounted.snoc (x := .restored tid g.nonceId) (by
          show lastTaker g.nonceId _ = some tid
          rw [lastTaker_append, lastTaker_eq_none (by simp [taker?]), Option.none_or]
          exact hlast)
        simpa using hboth
    · rw [List.append_nil]
      refine ⟨⟨fun a ha hn => ?_, fun q hmem => h.queued q (hrest q hmem)⟩, id⟩
      exact h.owned a ha fun hmem => hn (Finset.mem_insert_of_mem hmem)

end Inv

theorem ownRestore_append {log es : List Entry} (h : EverySplit OwnRestore log)
    (hes : ∀ e ∈ es, ∀ tid id, e ≠ .restored tid id) : EverySplit OwnRestore (log ++ es) := by
  induction es using List.reverseRecOn with
  | nil => simpa using h
  | append_singleton es e ih =>
    rw [← List.append_assoc]
    refine (ih fun e' he' => hes e' (List.mem_append_left _ he')).snoc ?_
    cases he : e with
    | restored tid id => exact absurd he (hes e (by simp) tid id)
    | _ => trivial

theorem whenIdle_no_restore (sys : System) (r : State × List Output) :
    ∀ e ∈ (whenIdle sys r).2, ∀ tid id, e ≠ .restored tid id := by
  unfold whenIdle
  split_ifs
  · rintro e he tid id rfl
    obtain ⟨o, -, ho⟩ := List.mem_map.mp he
    cases ho
  · intro e he
    cases he

/-- The step lemma. -/
theorem step_undisturbed {cfg : Config} {sys : System} {pre : List Input} {i : Input}
    (hu : Undisturbed cfg sys pre i)
    (h : Inv ((machine cfg).run sys pre).1 ((machine cfg).run sys pre).2)
    (hlog : EverySplit OwnRestore ((machine cfg).run sys pre).2) :
    Inv (step cfg ((machine cfg).run sys pre).1 i).1
        (((machine cfg).run sys pre).2 ++ (step cfg ((machine cfg).run sys pre).1 i).2) ∧
      EverySplit OwnRestore
        (((machine cfg).run sys pre).2 ++ (step cfg ((machine cfg).run sys pre).1 i).2) := by
  cases i with
  | take slot tick idx now =>
    refine ⟨h.take slot tick idx now hu, ownRestore_append hlog ?_⟩
    rintro e he tid id rfl
    obtain ⟨t, -, ht⟩ := List.mem_map.mp he
    cases ht
  | feed a =>
    refine ⟨?_, ownRestore_append hlog fun e he => by cases he⟩
    show Inv (if _ then _ else _) (_ ++ [])
    rw [List.append_nil]
    split_ifs
    · exact ⟨h.owned, h.queued⟩
    · exact h
  | register reg =>
    exact ⟨h.register reg hu, ownRestore_append hlog (whenIdle_no_restore _ _)⟩
  | send ev =>
    exact ⟨h.whenIdle (handleSendEvent_retains _ _ ev),
      ownRestore_append hlog (whenIdle_no_restore _ _)⟩
  | matched ev cache now =>
    exact ⟨h.whenIdle (handleMatchEvent_retains _ _ ev cache now),
      ownRestore_append hlog (whenIdle_no_restore _ _)⟩
  | deadlineSweep now =>
    exact ⟨h.whenIdle (sweepDeadlines_retains _ _ now),
      ownRestore_append hlog (whenIdle_no_restore _ _)⟩
  | nonceSweep now =>
    exact ⟨h.nonceSweep now, ownRestore_append hlog fun e he => by cases he⟩
  | restoreNext => exact ⟨h.restoreNext.1, h.restoreNext.2 hlog⟩

/-- In a run that never takes a nonce from under a registered trigger, and registers no
trigger whose nonce moved on, every restore is on behalf of the last taker. -/
theorem ownRestore_of_undisturbed (cfg : Config) (m : NonceManager) {is : List Input}
    (hu : EverySplit (Undisturbed cfg ⟨m, {}, [], 0⟩) is) :
    EverySplit OwnRestore ((machine cfg).run ⟨m, {}, [], 0⟩ is).2 := by
  suffices h : Inv ((machine cfg).run ⟨m, {}, [], 0⟩ is).1 ((machine cfg).run ⟨m, {}, [], 0⟩ is).2 ∧
      EverySplit OwnRestore ((machine cfg).run ⟨m, {}, [], 0⟩ is).2 from h.2
  induction is using List.reverseRecOn with
  | nil => exact ⟨⟨fun a ha => (List.not_mem_nil ha).elim, fun q hq => (List.not_mem_nil hq).elim⟩,
      EverySplit.nil⟩
  | append_singleton is i ih =>
    obtain ⟨hold, hi⟩ := EverySplit.snoc_iff.mp hu
    obtain ⟨hinv, hlog⟩ := ih hold
    have hnext := step_undisturbed hi hinv hlog
    rw [EventMachine.run_snoc_fst, EventMachine.run_snoc_snd]
    exact hnext

/-! One nonce, clocks in seconds; the trigger ids stand in for the hashes. -/

def sampleConfig : Config where
  deadline := 90
  runId := "run"
  anchor := 0
  finality := false
  nonceMode := true
  nonceRestoreAfter := 8
  sha := ⟨id, id⟩
  newTriggerId slot tick nonceId := slot * 2 ^ 24 + tick * 2 ^ 16 + nonceId

def sampleManager : NonceManager := NonceManager.new [(0, 5, 100)]

def sampleRegister (slot : ℕ) (now : Instant) : RegisterEvent where
  triggerId := slot * 2 ^ 24 + 2 ^ 16
  senderId := 1
  senderName := "helius"
  endpointUrl := "endpoint"
  protocol := "http"
  authTier := none
  tipAccountUsed := none
  tipLamports := 0
  priorityFeeMicrolamports := 5000
  computeUnitLimit := 200_000
  signature := slot
  txMessageHash := slot
  sendOrderInTrigger := 0
  triggerSlot := slot
  triggerTick := 1
  nonceAccountId := 0
  nonceBlockhashUsed := 0
  preparedAt := now
  poolReadyAt := now
  triggerObservedAt := now

/-- Nothing lands; the nonce is given back after the window and taken again. -/
def givenBack : List Input :=
  [.take 7 1 0 0, .register (sampleRegister 7 0), .nonceSweep 8, .restoreNext, .take 8 1 0 9]

/-- A Geyser update releases the nonce, which goes to the trigger of slot 8 before the
window of slot 7 is over. -/
def stolen : List Input :=
  [.take 7 1 0 0, .register (sampleRegister 7 0), .feed (.accountUpdate 5 101), .take 8 1 0 4,
    .nonceSweep 8, .restoreNext]

instance (log : List Entry) : DecidablePred (OwnRestore log)
  | .restored tid id => inferInstanceAs (Decidable (lastTaker id log = some tid))
  | .took _ _ | .out _ => inferInstanceAs (Decidable True)

instance (cfg : Config) (sys : System) (pre : List Input) : DecidablePred (Undisturbed cfg sys pre)
  | .take slot tick idx _ => inferInstanceAs (Decidable
    (∀ e ∈ ((machine cfg).run sys pre).1.manager.entries[idx]?, e.state.isReady = true →
      ∀ a ∈ ((machine cfg).run sys pre).1.matcher.attempts.entries,
        a.2.reg.nonceAccountId = e.id →
          a.1.1 ∉ ((machine cfg).run sys pre).1.matcher.restoredTriggers →
            a.1.1 = cfg.newTriggerId slot tick e.id))
  | .register reg => inferInstanceAs (Decidable
    (((machine cfg).run sys pre).1.sweeping = [] →
      lastTaker reg.nonceAccountId ((machine cfg).run sys pre).2 = some reg.triggerId))
  | .feed _ | .send _ | .matched _ _ _ | .deadlineSweep _ | .nonceSweep _ | .restoreNext =>
    inferInstanceAs (Decidable True)

theorem ownRestore_of_undisturbed_givenBack :
    EverySplit OwnRestore ((machine sampleConfig).run ⟨sampleManager, {}, [], 0⟩ givenBack).2 := by
  have hu : EverySplit (Undisturbed sampleConfig ⟨sampleManager, {}, [], 0⟩) givenBack := by
    decide +kernel
  exact ownRestore_of_undisturbed sampleConfig sampleManager hu

/-- The restore for slot 7 takes the nonce away from slot 8. -/
theorem restore_steals_nonce :
    ¬EverySplit OwnRestore ((machine sampleConfig).run ⟨sampleManager, {}, [], 0⟩ stolen).2 := by
  decide +kernel

end SolanaBench.FanOut.NonceRestore
