import SolanaBench.Lib.AListWeight
import SolanaBench.TickTrigger.RecorderOutcome

/-! The books of the recorder. An attempt is counted when it is registered and its
outcome when it leaves the map, so the summary balances iff no registration
replaces an attempt that is still open. -/
namespace SolanaBench.TickTrigger.Recorder

open TriggerEngine (MatchEvent)

/-- The registration replaces an open attempt. -/
def replaces (st : State) : Input → Bool
  | .register reg => decide (reg.key ∈ st.attempts)
  | _ => false

/-- What the summary and the rows of a whole run promise. -/
structure Accounted (cfg : RecorderConfig) (is : List Input) : Prop where
  total :
    let s := (runLoop cfg is).1.agg.intoSummary cfg.anchor
    s.attemptsTotal = s.attemptsLanded + s.attemptsSendError + s.attemptsUnknownPending
  rows : ∀ row ∈ ((runLoop cfg is).1.agg.intoSummary cfg.anchor).perSender,
    row.attempts = row.landed + row.sendError + row.unknownPending
  sums :
    let s := (runLoop cfg is).1.agg.intoSummary cfg.anchor
    s.attemptsTotal = (s.perSender.map PerSenderStats.attempts).sum ∧
      s.attemptsLanded = (s.perSender.map PerSenderStats.landed).sum ∧
      s.attemptsSendError = (s.perSender.map PerSenderStats.sendError).sum ∧
      s.attemptsUnknownPending = (s.perSender.map PerSenderStats.unknownPending).sum
  triggers :
    let s := (runLoop cfg is).1.agg.intoSummary cfg.anchor
    s.triggersLanded ≤ s.triggersAttempted
  records : (records (runLoop cfg is).2).length = (registrations is).length

/-! ## The aggregates -/

/-- The four numbers that are kept per sender and in total. -/
inductive Tally
  | attempts | landed | sendError | unknownPending
  deriving DecidableEq, Repr

def PerSenderStats.count (row : PerSenderStats) : Tally → ℕ
  | .attempts => row.attempts
  | .landed => row.landed
  | .sendError => row.sendError
  | .unknownPending => row.unknownPending

def AggregateState.total (agg : AggregateState) : Tally → ℕ
  | .attempts => agg.attemptsTotal
  | .landed => agg.attemptsLanded
  | .sendError => agg.attemptsSendError
  | .unknownPending => agg.attemptsUnknownPending

def FinalOutcome.tally : FinalOutcome → Tally
  | .landed => .landed
  | .sendError => .sendError
  | .unknownPending => .unknownPending

/-- A number summed over the rows of the senders. -/
def AggregateState.rowSum (agg : AggregateState) (d : Tally) : ℕ :=
  AList.weight (fun _ row => row.count d) agg.perSender

/-- Sender `s` is charged one on `c`, in its row and in the totals, and nothing else is. -/
structure Posts (c : Option Tally) (s : ℕ) (agg agg' : AggregateState) : Prop where
  totals : ∀ d, agg'.total d = agg.total d + if c = some d then 1 else 0
  rows : ∀ t d, (agg'.stats t).count d =
    (agg.stats t).count d + if t = s ∧ c = some d then 1 else 0
  sums : ∀ d, agg'.rowSum d = agg.rowSum d + if c = some d then 1 else 0

section Posts

variable {c : Option Tally} {s : ℕ} {agg agg' : AggregateState}

/-- Writing the row of a sender posts what the row has gained. -/
theorem posts_of_insert (row : PerSenderStats) (hrow : agg'.perSender = agg.perSender.insert s row)
    (hcount : ∀ d, row.count d = (agg.stats s).count d + if c = some d then 1 else 0)
    (htotal : ∀ d, agg'.total d = agg.total d + if c = some d then 1 else 0) :
    Posts c s agg agg' := by
  refine ⟨htotal, fun t d => ?_, fun d => ?_⟩
  · by_cases ht : t = s
    · subst ht
      have hstats : agg'.stats t = row := by
        unfold AggregateState.stats
        rw [hrow, AList.lookup_insert]
        rfl
      rw [hstats, hcount]
      simp
    · have hstats : agg'.stats t = agg.stats t := by
        unfold AggregateState.stats
        rw [hrow, AList.lookup_insert_ne ht]
      rw [hstats]
      simp [ht]
  · have hins := AList.weight_insert (fun _ row => PerSenderStats.count row d) agg.perSender s row
    have hold : AList.weightOf (fun _ row => PerSenderStats.count row d) agg.perSender s =
        (agg.stats s).count d := by
      unfold AList.weightOf AggregateState.stats
      cases agg.perSender.lookup s with
      | none => cases d <;> rfl
      | some row => rfl
    have hd := hcount d
    unfold AggregateState.rowSum
    rw [hrow]
    omega

theorem posts_recordRegister (agg : AggregateState) (reg : RegisterEvent) :
    Posts (some .attempts) reg.senderId agg (agg.recordRegister reg) :=
  posts_of_insert _ rfl (fun d => by cases d <;> rfl) (fun d => by cases d <;> rfl)

theorem posts_recordOutcome (agg : AggregateState) (t s : ℕ) (o : FinalOutcome)
    (us : Option ℕ) : Posts (some o.tally) s agg (agg.recordOutcome t s o us) := by
  cases o with
  | landed =>
    cases us with
    | none => exact posts_of_insert _ rfl (fun d => by cases d <;> rfl) (fun d => by cases d <;> rfl)
    | some us => exact posts_of_insert _ rfl (fun d => by cases d <;> rfl) (fun d => by cases d <;> rfl)
  | sendError => exact posts_of_insert _ rfl (fun d => by cases d <;> rfl) (fun d => by cases d <;> rfl)
  | unknownPending =>
    exact posts_of_insert _ rfl (fun d => by cases d <;> rfl) (fun d => by cases d <;> rfl)

/-- A reply only adds to the round trip times. -/
theorem posts_recordSend (agg : AggregateState) (ev : SendEvent) :
    Posts none ev.senderId agg (agg.recordSend ev) := by
  cases hrow : agg.perSender.lookup ev.senderId with
  | none =>
    have hsame : (agg.recordSend ev).perSender = agg.perSender := by
      unfold AggregateState.recordSend
      rw [hrow]
    refine ⟨fun d => by cases d <;> rfl, fun t d => ?_, fun d => ?_⟩
    · unfold AggregateState.stats
      rw [hsame]
      simp
    · unfold AggregateState.rowSum
      rw [hsame]
      simp
  | some row =>
    have hstats : agg.stats ev.senderId = row := by
      unfold AggregateState.stats
      rw [hrow]
      rfl
    refine posts_of_insert (AggregateState.addRtt row ev.outcome) ?_ (fun d => ?_)
      fun d => by cases d <;> rfl
    · unfold AggregateState.recordSend
      rw [hrow]
    · rw [hstats]
      unfold AggregateState.addRtt
      cases ev.outcome.sendAckAt <;> cases d <;> rfl

end Posts

/-! ## What the other messages do -/

/-- A relation between two states and the rows written on the way that everything but a
registration keeps. -/
structure RowLaw (R : State → State → List TriggerRecord → Prop) : Prop where
  refl : ∀ st, R st st []
  trans : ∀ {st st' st'' rows rows'}, R st st' rows → R st' st'' rows' →
    R st st'' (rows ++ rows')
  sent : ∀ st ev, R st { st with agg := st.agg.recordSend ev } []
  refilled : ∀ {st key att} (att' : TriggerAttempt), st.attempts.lookup key = some att →
    att'.register = att.register → R st { st with attempts := st.attempts.insert key att' } []
  forgot : ∀ st sig, R st { st with sigToKey := st.sigToKey.erase sig } []
  concluded : ∀ cfg o us st key,
    R st (conclude cfg o us st key).1 (records (conclude cfg o us st key).2)

namespace RowLaw

variable {R : State → State → List TriggerRecord → Prop}

theorem concludePending (h : RowLaw R) (cfg : RecorderConfig) (st : State) (keys : List Key) :
    R st ((concludePending cfg).run st keys).1
      (records ((Recorder.concludePending cfg).run st keys).2) := by
  refine (Recorder.concludePending cfg).run_rule (fun _ t os => R st t (records os)) st
    (h.refl st) (fun _ t os key ht => ?_) keys
  rw [records_append]
  exact h.trans ht (h.concluded cfg _ _ t key)

theorem handleSend (h : RowLaw R) (cfg : RecorderConfig) (st : State) (s : SendEvent) :
    R st (handleSend cfg st s).1 (records (handleSend cfg st s).2) := by
  unfold Recorder.handleSend
  cases hatt : st.attempts.lookup s.key with
  | none => exact h.refl st
  | some att =>
    have hfill := h.refilled { att with send := some s } hatt rfl
    dsimp only
    by_cases herr : s.outcome.error.isSome = true
    · rw [if_pos herr]
      exact h.trans hfill (h.concluded cfg _ _ _ s.key)
    · rw [if_neg herr]
      exact hfill

theorem handleMatch (h : RowLaw R) (cfg : RecorderConfig) (st : State) (m : MatchEvent)
    (cache : LocalCompute.SlotHashCache) (now : Instant) :
    R st (handleMatch cfg st m cache now).1 (records (handleMatch cfg st m cache now).2) := by
  unfold Recorder.handleMatch
  cases hsig : st.sigToKey.lookup m.signature with
  | none => exact h.refl st
  | some key =>
    dsimp only
    cases hatt : st.attempts.lookup key with
    | none => exact h.forgot st m.signature
    | some att =>
      have hfill := h.refilled { att with matched := some m } hatt rfl
      have hdone := h.trans hfill (h.concluded cfg .landed sendToObservedUs _ key)
      dsimp only
      rw [records_append, records_nonceHook]
      exact hdone

/-- Every input but a registration. -/
theorem step (h : RowLaw R) (cfg : RecorderConfig) (st : State) {i : Input}
    (hi : registration? i = none) :
    R st ((machine cfg).step st i).1 (records ((machine cfg).step st i).2) := by
  cases i with
  | register reg => cases hi
  | send s => exact h.trans (h.sent st s) (h.handleSend cfg _ s)
  | matched m cache now => exact h.handleMatch cfg st m cache now
  | sweep now => exact h.concludePending cfg st _

end RowLaw

/-! ## The books -/

/-- The open attempts. -/
def opened (st : State) : ℕ := AList.weight (fun _ _ => 1) st.attempts

/-- The open attempts of one sender. -/
def openedBy (s : ℕ) (st : State) : ℕ :=
  AList.weight (fun (key : Key) _ => if key.2 = s then 1 else 0) st.attempts

/-- Open attempts carry their registrations, and the totals are the sums of the rows. -/
structure Ledger (st : State) : Prop where
  own : ∀ key att, st.attempts.lookup key = some att →
    ∃ reg, att.register = some reg ∧ reg.key = key ∧ reg.triggerId ∈ st.agg.triggersAttempted
  landed : st.agg.triggersLanded ⊆ st.agg.triggersAttempted
  sums : ∀ d, st.agg.total d = st.agg.rowSum d

/-- Every attempt of a sender is open or has its outcome counted. -/
def Balanced (st : State) : Prop :=
  ∀ s, (st.agg.stats s).attempts = (st.agg.stats s).landed + (st.agg.stats s).sendError +
    (st.agg.stats s).unknownPending + openedBy s st

/-- The books are kept from `st` to `st'`, with one row for each attempt closed. -/
structure Books (st st' : State) (os : List Output) : Prop where
  ledger : Ledger st'
  balanced : Balanced st → Balanced st'
  rows : (records os).length + opened st' = opened st

section Books

variable {cfg : RecorderConfig} {st st' st'' : State} {os ps : List Output}

theorem Books.refl (h : Ledger st) : Books st st [] :=
  ⟨h, id, by simp⟩

theorem Posts.counts {c : Option Tally} {s : ℕ} {agg agg' : AggregateState}
    (h : Posts c s agg agg') (t : ℕ) :
    (agg'.stats t).attempts =
        (agg.stats t).attempts + (if t = s ∧ c = some .attempts then 1 else 0) ∧
      (agg'.stats t).landed =
        (agg.stats t).landed + (if t = s ∧ c = some .landed then 1 else 0) ∧
      (agg'.stats t).sendError =
        (agg.stats t).sendError + (if t = s ∧ c = some .sendError then 1 else 0) ∧
      (agg'.stats t).unknownPending =
        (agg.stats t).unknownPending + (if t = s ∧ c = some .unknownPending then 1 else 0) :=
  ⟨h.rows t .attempts, h.rows t .landed, h.rows t .sendError, h.rows t .unknownPending⟩

/-- A counted outcome is one more outcome and no attempt. -/
theorem Posts.outcomes {o : FinalOutcome} {s : ℕ} {agg agg' : AggregateState}
    (h : Posts (some o.tally) s agg agg') (t : ℕ) :
    (agg'.stats t).attempts = (agg.stats t).attempts ∧
      (agg'.stats t).landed + (agg'.stats t).sendError + (agg'.stats t).unknownPending =
        (agg.stats t).landed + (agg.stats t).sendError + (agg.stats t).unknownPending +
          if s = t then 1 else 0 := by
  obtain ⟨ha, hl, he, hu⟩ := h.counts t
  rw [ha, hl, he, hu]
  by_cases ht : s = t
  · subst ht
    cases o <;> simp [FinalOutcome.tally] <;> omega
  · have ht' : ¬t = s := fun hts => ht hts.symm
    simp [ht, ht']

theorem Posts.sums_kept {c : Option Tally} {s : ℕ} {agg agg' : AggregateState}
    (h : Posts c s agg agg') (hsums : ∀ d, agg.total d = agg.rowSum d) (d : Tally) :
    agg'.total d = agg'.rowSum d := by
  rw [h.totals, h.sums, hsums]

/-- A reply that is only recorded. -/
theorem books_recordSend (h : Ledger st) (ev : SendEvent) :
    Books st { st with agg := st.agg.recordSend ev } [] := by
  have hposts := posts_recordSend st.agg ev
  refine ⟨⟨h.own, h.landed, hposts.sums_kept h.sums⟩, fun hb t => ?_, by simp [opened]⟩
  obtain ⟨ha, hl, he, hu⟩ := hposts.counts t
  have hbt := hb t
  have hopen : openedBy t { st with agg := st.agg.recordSend ev } = openedBy t st := rfl
  simp only [reduceCtorEq, and_false, if_false, Nat.add_zero] at ha hl he hu
  dsimp only
  omega

/-- Filling in the other fields of an open attempt. -/
theorem books_refill (h : Ledger st) {key : Key} {att : TriggerAttempt}
    (hatt : st.attempts.lookup key = some att) (att' : TriggerAttempt) (hreg : att'.register = att.register) :
    Books st { st with attempts := st.attempts.insert key att' } [] := by
  refine ⟨⟨fun k a hk => ?_, h.landed, h.sums⟩, fun hb t => ?_, ?_⟩
  · by_cases hkey : k = key
    · subst hkey
      rw [AList.lookup_insert] at hk
      rw [← Option.some.inj hk, hreg]
      exact h.own k att hatt
    · rw [AList.lookup_insert_ne hkey] at hk
      exact h.own k a hk
  · have hopen : openedBy t { st with attempts := st.attempts.insert key att' } = openedBy t st :=
      AList.weight_replace hatt rfl
    rw [hopen]
    exact hb t
  · have hopen : opened { st with attempts := st.attempts.insert key att' } = opened st :=
      AList.weight_replace hatt rfl
    simp [hopen]

/-- Closing an attempt writes its row and counts its outcome. -/
theorem books_conclude (h : Ledger st) (cfg : RecorderConfig) (o : FinalOutcome)
    (us : TriggerAttempt → Option ℕ) (key : Key) :
    Books st (conclude cfg o us st key).1 (conclude cfg o us st key).2 := by
  unfold conclude
  cases hatt : st.attempts.lookup key with
  | none => exact Books.refl h
  | some att =>
    obtain ⟨reg, hreg, hkey, htrigger⟩ := h.own key att hatt
    subst hkey
    have hposts := posts_recordOutcome st.agg reg.triggerId reg.senderId o (us att)
    have hsets : (st.agg.recordOutcome reg.triggerId reg.senderId o (us att)).triggersAttempted =
          st.agg.triggersAttempted ∧
        (st.agg.recordOutcome reg.triggerId reg.senderId o (us att)).triggersLanded ⊆
          insert reg.triggerId st.agg.triggersLanded := by
      cases o with
      | landed => exact ⟨rfl, subset_rfl⟩
      | sendError => exact ⟨rfl, Finset.subset_insert _ _⟩
      | unknownPending => exact ⟨rfl, Finset.subset_insert _ _⟩
    dsimp only
    rw [hreg]
    dsimp only
    refine ⟨⟨fun k a hk => ?_, ?_, hposts.sums_kept h.sums⟩, fun hb t => ?_, ?_⟩
    · rw [hsets.1]
      by_cases hkk : k = reg.key
      · rw [hkk, AList.lookup_erase] at hk
        cases hk
      · rw [AList.lookup_erase_ne hkk] at hk
        exact h.own k a hk
    · rw [hsets.1]
      exact hsets.2.trans (Finset.insert_subset htrigger h.landed)
    · obtain ⟨ha, houtcomes⟩ := hposts.outcomes t
      have hbt := hb t
      have herase := AList.weight_erase (fun (key : Key) (_ : TriggerAttempt) =>
        if key.2 = t then 1 else 0) st.attempts reg.key
      have hsender : reg.key.2 = reg.senderId := rfl
      rw [AList.weightOf_eq hatt, hsender] at herase
      unfold openedBy at hbt ⊢
      dsimp only
      omega
    · have herase := AList.weight_erase (fun (_ : Key) (_ : TriggerAttempt) => 1) st.attempts reg.key
      rw [AList.weightOf_eq hatt] at herase
      have hrow : (records (emitRecord cfg att o)).length = 1 := by simp [emitRecord, hreg]
      rw [hrow]
      unfold opened
      dsimp only
      omega

/-- The books seen through the rows alone. -/
theorem books_iff : Books st st' os ↔ Ledger st' ∧ (Balanced st → Balanced st') ∧
    (records os).length + opened st' = opened st :=
  ⟨fun h => ⟨h.ledger, h.balanced, h.rows⟩, fun h => ⟨h.1, h.2.1, h.2.2⟩⟩

theorem books_law : RowLaw fun st st' rows => Ledger st →
    Ledger st' ∧ (Balanced st → Balanced st') ∧ rows.length + opened st' = opened st where
  refl _ h := books_iff.mp (Books.refl h)
  trans := by
    intro st st' st'' rows rows' h h' hled
    obtain ⟨hled', hbal, hrows⟩ := h hled
    obtain ⟨hled'', hbal', hrows'⟩ := h' hled'
    refine ⟨hled'', fun hb => hbal' (hbal hb), ?_⟩
    rw [List.length_append]
    omega
  sent _ ev h := books_iff.mp (books_recordSend h ev)
  refilled att' hatt hreg h := books_iff.mp (books_refill h hatt att' hreg)
  forgot _ _ h := ⟨⟨h.own, h.landed, h.sums⟩, id, by simp [opened]⟩
  concluded cfg o us _ key h := books_iff.mp (books_conclude h cfg o us key)

theorem books_concludePending (h : Ledger st) (cfg : RecorderConfig) (keys : List Key) :
    Books st ((concludePending cfg).run st keys).1 ((concludePending cfg).run st keys).2 :=
  books_iff.mpr (books_law.concludePending cfg st keys h)

/-- A registration opens an attempt, in place of one of the same key if there is one. -/
theorem handleRegister_ledger (h : Ledger st) (cfg : RecorderConfig) (reg : RegisterEvent) :
    Ledger (handleRegister cfg { st with agg := st.agg.recordRegister reg } reg) := by
  have hposts := posts_recordRegister st.agg reg
  refine ⟨fun k a hk => ?_, h.landed.trans (Finset.subset_insert _ _), hposts.sums_kept h.sums⟩
  have hk' : (st.attempts.insert reg.key
    ⟨some reg, none, none, reg.triggerObservedAt + cfg.deadline⟩).lookup k = some a := hk
  by_cases hkey : k = reg.key
  · rw [hkey, AList.lookup_insert] at hk'
    rw [← Option.some.inj hk', hkey]
    exact ⟨reg, rfl, rfl, Finset.mem_insert_self _ _⟩
  · rw [AList.lookup_insert_ne hkey] at hk'
    obtain ⟨r, hr, hrk, hrt⟩ := h.own k a hk'
    exact ⟨r, hr, hrk, Finset.mem_insert_of_mem hrt⟩

theorem handleRegister_opened (cfg : RecorderConfig) (st : State) (reg : RegisterEvent) :
    opened (handleRegister cfg { st with agg := st.agg.recordRegister reg } reg) +
      (if reg.key ∈ st.attempts then 1 else 0) = opened st + 1 := by
  have hins := AList.weight_insert (fun (_ : Key) (_ : TriggerAttempt) => 1) st.attempts reg.key
    ⟨some reg, none, none, reg.triggerObservedAt + cfg.deadline⟩
  unfold opened handleRegister
  by_cases hin : reg.key ∈ st.attempts
  · obtain ⟨att, hatt⟩ := Option.isSome_iff_exists.mp (AList.lookup_isSome.mpr hin)
    rw [AList.weightOf_eq hatt] at hins
    rw [if_pos hin]
    exact hins
  · rw [AList.weightOf_eq_zero (AList.lookup_eq_none.mpr hin)] at hins
    rw [if_neg hin]
    exact hins

theorem handleRegister_balanced (cfg : RecorderConfig) (hb : Balanced st) {reg : RegisterEvent}
    (hnew : reg.key ∉ st.attempts) :
    Balanced (handleRegister cfg { st with agg := st.agg.recordRegister reg } reg) := by
  intro t
  obtain ⟨ha, hl, he, hu⟩ := (posts_recordRegister st.agg reg).counts t
  have hbt := hb t
  have hins := AList.weight_insert (fun (key : Key) (_ : TriggerAttempt) =>
    if key.2 = t then 1 else 0) st.attempts reg.key
    ⟨some reg, none, none, reg.triggerObservedAt + cfg.deadline⟩
  have hsender : reg.key.2 = reg.senderId := rfl
  rw [AList.weightOf_eq_zero (AList.lookup_eq_none.mpr hnew), hsender] at hins
  simp only [eq_comm (a := t), and_true, Option.some.injEq, reduceCtorEq, and_false, if_false,
    Nat.add_zero] at ha hl he hu
  unfold openedBy handleRegister at *
  dsimp only at *
  omega

/-! ## Whole runs -/

theorem ledger_empty : Ledger {} := by
  refine ⟨fun k a hk => by simp at hk, subset_rfl, fun d => ?_⟩
  cases d <;> rfl

/-- Every input but a registration keeps the books. -/
theorem books_step (h : Ledger st) (cfg : RecorderConfig) {i : Input}
    (hi : registration? i = none) :
    Books st ((machine cfg).step st i).1 ((machine cfg).step st i).2 :=
  books_iff.mpr (books_law.step cfg st hi h)

theorem ledger_run (cfg : RecorderConfig) (is : List Input) : Ledger ((machine cfg).run {} is).1 := by
  refine (machine cfg).run_invariant Ledger ledger_empty (fun st i h => ?_) is
  cases i with
  | register reg => exact handleRegister_ledger h cfg reg
  | send s => exact (books_step h cfg rfl).ledger
  | matched m cache now => exact (books_step h cfg rfl).ledger
  | sweep now => exact (books_step h cfg rfl).ledger

/-- One input: what is registered is open, closed with a row, or replaced. -/
theorem registrations_step (h : Ledger st) (cfg : RecorderConfig) (i : Input) :
    (records ((machine cfg).step st i).2).length + opened ((machine cfg).step st i).1 +
      (if replaces st i then 1 else 0) = opened st + (registration? i).toList.length := by
  cases i with
  | register reg =>
    have hopen := handleRegister_opened cfg st reg
    have hrows : records ((machine cfg).step st (.register reg)).2 = [] := rfl
    have hstep : ((machine cfg).step st (.register reg)).1 =
        handleRegister cfg { st with agg := st.agg.recordRegister reg } reg := rfl
    rw [hrows, hstep]
    simp only [replaces, decide_eq_true_eq, registration?, Option.toList_some, List.length_nil,
      List.length_singleton]
    omega
  | send s => exact (books_step h cfg rfl).rows
  | matched m cache now => exact (books_step h cfg rfl).rows
  | sweep now => exact (books_step h cfg rfl).rows

/-- Without replacements the rows of the senders stay balanced. -/
theorem balanced_run {cfg : RecorderConfig} {is : List Input}
    (h : (machine cfg).Along (fun st i => replaces st i = false) {} is) :
    Balanced ((machine cfg).run {} is).1 := by
  induction is using List.reverseRecOn with
  | nil => exact fun _ => rfl
  | append_singleton is i ih =>
    obtain ⟨his, hi⟩ := EverySplit.snoc_iff.mp h
    have hbal := ih his
    have hled := ledger_run cfg is
    rw [EventMachine.run_snoc_fst]
    cases i with
    | register reg =>
      exact handleRegister_balanced cfg hbal (by simpa [replaces] using hi)
    | send s => exact (books_step hled cfg rfl).balanced hbal
    | matched m cache now => exact (books_step hled cfg rfl).balanced hbal
    | sweep now => exact (books_step hled cfg rfl).balanced hbal

theorem mem_conclude (cfg : RecorderConfig) (o : FinalOutcome) (us : TriggerAttempt → Option ℕ)
    {st : State} {key k : Key} (h : k ∈ (conclude cfg o us st key).1.attempts) :
    k ∈ st.attempts ∧ k ≠ key := by
  unfold conclude at h
  cases hatt : st.attempts.lookup key with
  | none =>
    rw [hatt] at h
    exact ⟨h, fun hk => AList.lookup_eq_none.mp hatt (hk ▸ h)⟩
  | some att =>
    rw [hatt] at h
    have hmem := AList.mem_erase.mp h
    exact ⟨hmem.2, hmem.1⟩

/-- The flush leaves no attempt open. -/
theorem opened_flush (cfg : RecorderConfig) (st : State) (k : Key) :
    k ∉ (flush cfg st).1.attempts := by
  have hrun : ∀ (keys : List Key) (st : State),
      k ∈ ((concludePending cfg).run st keys).1.attempts → k ∈ st.attempts ∧ k ∉ keys := by
    intro keys
    induction keys with
    | nil => exact fun st h => ⟨h, List.not_mem_nil⟩
    | cons key keys ih =>
      intro st h
      obtain ⟨hmem, hnot⟩ := ih _ h
      obtain ⟨hst, hne⟩ := mem_conclude cfg _ _ hmem
      exact ⟨hst, by simp [hne, hnot]⟩
  intro h
  obtain ⟨hmem, hnot⟩ := hrun _ st h
  exact hnot (AList.mem_keys.mp hmem)

/-- The rows written fall short of the registrations by the attempts replaced. -/
theorem records_runLoop (cfg : RecorderConfig) (is : List Input) :
    (records (runLoop cfg is).2).length = (registrations is).length ↔
      (machine cfg).Along (fun st i => replaces st i = false) {} is := by
  have hrun : (registrations is).length = (records ((machine cfg).run {} is).2).length +
      opened ((machine cfg).run {} is).1 ↔
        (machine cfg).Along (fun st i => replaces st i = false) {} is := by
    refine EventMachine.along_iff_balanced replaces (fun is => (registrations is).length)
      (fun os => (records os).length) opened rfl (fun os ps => ?_) (fun is i => ?_) is
    · rw [records_append, List.length_append]
    · have hstep := registrations_step (ledger_run cfg is) cfg i
      rw [registrations_snoc, List.length_append]
      omega
  have hflush := (books_concludePending (ledger_run cfg is) cfg
    ((machine cfg).run {} is).1.attempts.keys).rows
  have hempty : opened (flush cfg ((machine cfg).run {} is).1).1 = 0 :=
    AList.weight_eq_zero _ (opened_flush cfg _)
  have hrows : (records (runLoop cfg is).2).length =
      (records ((machine cfg).run {} is).2).length +
        (records (flush cfg ((machine cfg).run {} is).1).2).length := by
    unfold runLoop
    rw [records_append, List.length_append]
  unfold flush at hempty hrows
  rw [← hrun]
  omega

/-- The lines of the summary are the rows of the map. -/
theorem mem_perSender_iff {agg : AggregateState} {anchor : Instant} {row : PerSenderStats} :
    row ∈ (agg.intoSummary anchor).perSender ↔ ∃ s, agg.perSender.lookup s = some row := by
  have hperm := List.mergeSort_perm (agg.perSender.entries.map Sigma.snd)
    (fun a b => decide (a.senderId ≤ b.senderId))
  have hmem : row ∈ (agg.intoSummary anchor).perSender ↔
      row ∈ agg.perSender.entries.map Sigma.snd := hperm.mem_iff
  rw [hmem, List.mem_map]
  constructor
  · rintro ⟨e, he, rfl⟩
    exact ⟨e.1, AList.mem_lookup_iff.mpr he⟩
  · rintro ⟨s, hs⟩
    exact ⟨⟨s, row⟩, AList.mem_lookup_iff.mp hs, rfl⟩

theorem mem_perSender {agg : AggregateState} {anchor : Instant} {row : PerSenderStats}
    (h : row ∈ (agg.intoSummary anchor).perSender) : ∃ s, agg.stats s = row := by
  obtain ⟨s, hs⟩ := mem_perSender_iff.mp h
  refine ⟨s, ?_⟩
  unfold AggregateState.stats
  rw [hs]
  rfl

/-- The sums over the summary's rows are those over the map. -/
theorem sum_perSender (agg : AggregateState) (anchor : Instant) (d : Tally) :
    ((agg.intoSummary anchor).perSender.map fun row => row.count d).sum = agg.rowSum d := by
  have hperm := List.mergeSort_perm (agg.perSender.entries.map Sigma.snd)
    (fun a b => decide (a.senderId ≤ b.senderId))
  have hsum := (hperm.map fun row => row.count d).sum_eq
  rw [List.map_map] at hsum
  exact hsum

/-- The summary and the rows of a run balance iff no registration replaces an open attempt. -/
theorem accounted_iff (cfg : RecorderConfig) (is : List Input) :
    Accounted cfg is ↔ (machine cfg).Along (fun st i => replaces st i = false) {} is := by
  refine ⟨fun h => (records_runLoop cfg is).mp h.records, fun h => ?_⟩
  have hbooks := books_concludePending (ledger_run cfg is) cfg
    ((machine cfg).run {} is).1.attempts.keys
  have hled : Ledger (runLoop cfg is).1 := hbooks.ledger
  have hbal : Balanced (runLoop cfg is).1 := hbooks.balanced (balanced_run h)
  have hopen : ∀ s, openedBy s (runLoop cfg is).1 = 0 := fun s =>
    AList.weight_eq_zero _ (opened_flush cfg _)
  have hsums := fun d => (hled.sums d).trans (sum_perSender _ cfg.anchor d).symm
  have hrows : ∀ row ∈ ((runLoop cfg is).1.agg.intoSummary cfg.anchor).perSender,
      row.attempts = row.landed + row.sendError + row.unknownPending := by
    intro row hrow
    obtain ⟨s, rfl⟩ := mem_perSender hrow
    have hs := hbal s
    rw [hopen s] at hs
    exact hs
  refine ⟨?_, hrows, ⟨hsums .attempts, hsums .landed, hsums .sendError, hsums .unknownPending⟩,
    Finset.card_le_card hled.landed, (records_runLoop cfg is).mpr h⟩
  -- the totals balance because the rows do
  have hadd : ∀ rows : List PerSenderStats,
      (∀ row ∈ rows, row.attempts = row.landed + row.sendError + row.unknownPending) →
      (rows.map fun row => row.count .attempts).sum = (rows.map fun row => row.count .landed).sum +
        (rows.map fun row => row.count .sendError).sum +
        (rows.map fun row => row.count .unknownPending).sum := by
    intro rows hrows
    induction rows with
    | nil => rfl
    | cons row rows ih =>
      have ih := ih fun r hr => hrows r (List.mem_cons_of_mem row hr)
      have hrow := hrows row List.mem_cons_self
      simp only [List.map_cons, List.sum_cons, PerSenderStats.count] at ih ⊢
      omega
  have htotal := hadd _ hrows
  rw [← hsums .attempts, ← hsums .landed, ← hsums .sendError, ← hsums .unknownPending] at htotal
  exact htotal

/-- A second registration of an open key: two attempts, one outcome, one row. -/
theorem replaced_attempt_lost : ¬∀ (cfg : RecorderConfig) (is : List Input), Accounted cfg is := by
  intro h
  have hrows := (h sampleConfig [.register sampleRegister, .register sampleRegister]).records
  revert hrows
  decide +kernel

end Books

end SolanaBench.TickTrigger.Recorder
