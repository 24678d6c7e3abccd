import SolanaBench.Lib.AListEach
import SolanaBench.TickTrigger.RecorderAccounting

/-! The rows of a run beside its aggregates. Every outcome that is counted is that of a
row written in the same step, and where no key is registered twice the rows carry
the keys registered, each once. -/
namespace SolanaBench.TickTrigger.Recorder

open TriggerEngine (TriggerId)

/-- The triggers with a landed attempt. -/
def landedTriggers (rows : List TriggerRecord) : Finset TriggerId :=
  ((rows.filter fun row => row.finalOutcome = .landed).map TriggerRecord.triggerId).toFinset

theorem mem_landedTriggers {rows : List TriggerRecord} {t : TriggerId} :
    t ∈ landedTriggers rows ↔ ∃ row ∈ rows, row.finalOutcome = .landed ∧ row.triggerId = t := by
  simp [landedTriggers, and_assoc]

@[simp] theorem landedTriggers_nil : landedTriggers [] = ∅ := rfl

@[simp] theorem landedTriggers_append (rows rows' : List TriggerRecord) :
    landedTriggers (rows ++ rows') = landedTriggers rows ∪ landedTriggers rows' := by
  simp [landedTriggers, List.filter_append]

/-- The landed attempts of a sender. -/
def winsOf (s : ℕ) (rows : List TriggerRecord) : ℕ :=
  rows.countP fun row => row.finalOutcome = .landed ∧ row.senderId = s

/-- The attempts still unknown at their deadline or at the flush. -/
def pendings (rows : List TriggerRecord) : ℕ :=
  rows.countP fun row => row.finalOutcome = .unknownPending

/-- Whether the attempt is open, as a number. -/
def held (k : Key) (st : State) : ℕ :=
  AList.weight (fun key (_ : TriggerAttempt) => if key = k then 1 else 0) st.attempts

/-- From `st` to `st'` the attempts that left the map were written and counted. -/
structure Written (st st' : State) (rows : List TriggerRecord) : Prop where
  ledger : Ledger st'
  keys : ∀ k, (rows.map TriggerRecord.key).count k + held k st' = held k st
  landed : st'.agg.triggersLanded = st.agg.triggersLanded ∪ landedTriggers rows
  pending : st'.agg.attemptsUnknownPending = st.agg.attemptsUnknownPending + pendings rows
  wins : ∀ s, (st'.agg.stats s).landed = (st.agg.stats s).landed + winsOf s rows
  ids : AList.Each (fun s row => row.senderId = s) st.agg.perSender →
    AList.Each (fun s row => row.senderId = s) st'.agg.perSender
  senders : ∀ s, s ∈ st.agg.perSender → s ∈ st'.agg.perSender
  owned : ∀ s, s ∈ st'.agg.perSender → s ∈ st.agg.perSender ∨ ∃ k, k ∈ st.attempts ∧ k.2 = s
  attempts : ∀ k, k ∈ st'.attempts → k ∈ st.attempts

section Written

variable {st st' st'' : State} {rows rows' : List TriggerRecord}

theorem Written.refl (h : Ledger st) : Written st st [] where
  ledger := h
  keys _ := Nat.zero_add _
  landed := by simp
  pending := rfl
  wins _ := rfl
  ids := id
  senders _ := id
  owned _ := Or.inl
  attempts _ := id

theorem Written.trans (h : Written st st' rows) (h' : Written st' st'' rows') :
    Written st st'' (rows ++ rows') where
  ledger := h'.ledger
  keys k := by
    have hk := h.keys k
    have hk' := h'.keys k
    rw [List.map_append, List.count_append]
    omega
  landed := by rw [h'.landed, h.landed, landedTriggers_append, Finset.union_assoc]
  pending := by
    rw [h'.pending, h.pending, pendings, pendings, pendings, List.countP_append, Nat.add_assoc]
  wins s := by rw [h'.wins, h.wins, winsOf, winsOf, winsOf, List.countP_append, Nat.add_assoc]
  ids hids := h'.ids (h.ids hids)
  senders s hs := h'.senders s (h.senders s hs)
  owned s hs := by
    rcases h'.owned s hs with hs | ⟨k, hk, hks⟩
    · exact h.owned s hs
    · exact Or.inr ⟨k, h.attempts k hk, hks⟩
  attempts k hk := h.attempts k (h'.attempts k hk)

theorem stats_senderId {agg : AggregateState}
    (hids : AList.Each (fun s row => row.senderId = s) agg.perSender) (s : ℕ) :
    (agg.stats s).senderId = s := by
  unfold AggregateState.stats
  cases hrow : agg.perSender.lookup s with
  | none => rfl
  | some row => exact hids s row hrow

theorem mem_insert_of_mem {m : AList fun _ : ℕ => PerSenderStats} {s : ℕ} (t : ℕ)
    (row : PerSenderStats) (h : s ∈ m) : s ∈ m.insert t row :=
  (AList.mem_insert m).mpr (Or.inr h)

/-- A reply changes no row of the table but for its round trip times. -/
theorem written_recordSend (h : Ledger st) (ev : SendEvent) :
    Written st { st with agg := st.agg.recordSend ev } [] := by
  have hrows : (st.agg.recordSend ev).perSender = st.agg.perSender ∨
      ∃ row, st.agg.perSender.lookup ev.senderId = some row ∧
        (st.agg.recordSend ev).perSender =
          st.agg.perSender.insert ev.senderId (AggregateState.addRtt row ev.outcome) := by
    unfold AggregateState.recordSend
    cases hrow : st.agg.perSender.lookup ev.senderId with
    | none => exact Or.inl rfl
    | some row => exact Or.inr ⟨row, rfl, rfl⟩
  refine ⟨(books_recordSend h ev).ledger, fun k => Nat.zero_add _, by simp [AggregateState.recordSend],
    rfl, fun s => ?_, fun hids => ?_, fun s hs => ?_, fun s hs => Or.inl ?_, fun _ => id⟩
  · obtain ⟨-, hl, -, -⟩ := (posts_recordSend st.agg ev).counts s
    simpa [winsOf] using hl
  · rcases hrows with hsame | ⟨row, hrow, hins⟩
    · exact hsame.symm ▸ hids
    · have hid : (AggregateState.addRtt row ev.outcome).senderId = ev.senderId := by
        have hrowid := hids ev.senderId row hrow
        unfold AggregateState.addRtt
        cases ev.outcome.sendAckAt <;> exact hrowid
      exact hins.symm ▸ hids.insert hid
  · rcases hrows with hsame | ⟨row, -, hins⟩
    · exact hsame.symm ▸ hs
    · exact hins.symm ▸ mem_insert_of_mem _ _ hs
  · rcases hrows with hsame | ⟨row, hrow, hins⟩
    · exact hsame ▸ hs
    · rw [hins, AList.mem_insert] at hs
      rcases hs with rfl | hs
      · exact AList.lookup_isSome.mp (Option.isSome_iff_exists.mpr ⟨row, hrow⟩)
      · exact hs

/-- The other fields of an open attempt are not looked at. -/
theorem written_refill (h : Ledger st) {key : Key} {att : TriggerAttempt}
    (hatt : st.attempts.lookup key = some att) (att' : TriggerAttempt)
    (hreg : att'.register = att.register) :
    Written st { st with attempts := st.attempts.insert key att' } [] where
  ledger := (books_refill h hatt att' hreg).ledger
  keys k := by
    have hsame : held k { st with attempts := st.attempts.insert key att' } = held k st :=
      AList.weight_replace hatt rfl
    rw [hsame]
    exact Nat.zero_add _
  landed := by simp
  pending := rfl
  wins _ := rfl
  ids := id
  senders _ := id
  owned _ := Or.inl
  attempts k hk := by
    rcases (AList.mem_insert _).mp hk with rfl | hk
    · exact AList.lookup_isSome.mp (Option.isSome_iff_exists.mpr ⟨att, hatt⟩)
    · exact hk

/-- The map holds one attempt less once an attempt has left it. -/
theorem held_erase {key : Key} {att : TriggerAttempt} (hatt : st.attempts.lookup key = some att)
    (h : st'.attempts = st.attempts.erase key) (k : Key) :
    (if key = k then 1 else 0) + held k st' = held k st := by
  have herase := AList.weight_erase (fun key (_ : TriggerAttempt) => if key = k then 1 else 0)
    st.attempts key
  rw [AList.weightOf_eq hatt, ← h] at herase
  unfold held
  omega

/-- An outcome rewrites the row of its sender. -/
theorem exists_row_recordOutcome (agg : AggregateState) (t : TriggerId) (s : ℕ)
    (o : FinalOutcome) (us : Option ℕ) :
    ∃ row, row.senderId = (agg.stats s).senderId ∧
      (agg.recordOutcome t s o us).perSender = agg.perSender.insert s row := by
  cases o with
  | landed =>
    refine ⟨_, ?_, rfl⟩
    cases us <;> rfl
  | sendError =>
    refine ⟨_, ?_, rfl⟩
    rfl
  | unknownPending =>
    refine ⟨_, ?_, rfl⟩
    rfl

/-- A concluded attempt leaves the map with one row, and the row is what is counted. -/
theorem written_conclude (h : Ledger st) (cfg : RecorderConfig) (o : FinalOutcome)
    (us : TriggerAttempt → Option ℕ) (key : Key) :
    Written st (conclude cfg o us st key).1 (records (conclude cfg o us st key).2) := by
  have hledger := (books_conclude h cfg o us key).ledger
  revert hledger
  unfold conclude
  cases hatt : st.attempts.lookup key with
  | none => exact fun _ => Written.refl h
  | some att =>
    obtain ⟨reg, hreg, hkey, -⟩ := h.own key att hatt
    subst hkey
    dsimp only
    rw [hreg]
    dsimp only
    intro hledger
    have hrow : records (emitRecord cfg att o) = [triggerRecord cfg att reg o] := by
      simp [emitRecord, hreg]
    have hposts := posts_recordOutcome st.agg reg.triggerId reg.senderId o (us att)
    rw [hrow]
    have hopen : reg.key ∈ st.attempts :=
      AList.lookup_isSome.mp (Option.isSome_iff_exists.mpr ⟨att, hatt⟩)
    have hrowkey : (triggerRecord cfg att reg o).key = reg.key := rfl
    obtain ⟨row, hid, hins⟩ :=
      exists_row_recordOutcome st.agg reg.triggerId reg.senderId o (us att)
    refine ⟨hledger, fun k => ?_, ?_, ?_, fun s => ?_, fun hids => ?_, fun s hs => ?_,
      fun s hs => ?_, fun k hk => (AList.mem_erase.mp hk).2⟩
    · rw [List.map_singleton, hrowkey, List.count_singleton]
      simpa using held_erase hatt rfl k
    · cases o <;> simp [AggregateState.recordOutcome, landedTriggers, triggerRecord]
    · have htotal := hposts.totals .unknownPending
      unfold AggregateState.total at htotal
      dsimp only at htotal ⊢
      rw [htotal]
      cases o <;> rfl
    · obtain ⟨-, hl, -, -⟩ := hposts.counts s
      dsimp only
      rw [hl]
      cases o <;> simp [winsOf, triggerRecord, FinalOutcome.tally, eq_comm]
    · exact hins.symm ▸ hids.insert (hid.trans (stats_senderId hids reg.senderId))
    · exact hins.symm ▸ mem_insert_of_mem _ _ hs
    · rcases (AList.mem_insert _).mp (hins ▸ hs) with rfl | hs
      · exact Or.inr ⟨reg.key, hopen, rfl⟩
      · exact Or.inl hs

theorem written_law : RowLaw fun st st' rows => Ledger st → Written st st' rows where
  refl _ h := Written.refl h
  trans h h' hled := (h hled).trans (h' (h hled).ledger)
  sent _ ev h := written_recordSend h ev
  refilled att' hatt hreg h := written_refill h hatt att' hreg
  forgot _ _ h := ⟨⟨h.own, h.landed, h.sums⟩, fun _ => Nat.zero_add _, by simp, rfl, fun _ => rfl,
    id, fun _ => id, fun _ => Or.inl, fun _ => id⟩
  concluded cfg o us _ key h := written_conclude h cfg o us key

end Written

/-! ## Whole runs -/

/-- What the aggregates and the map of attempts say about the rows written so far. -/
structure Logged (is : List Input) (st : State) (rows : List TriggerRecord) : Prop where
  ledger : Ledger st
  keys : ((registrations is).map RegisterEvent.key).Nodup → ∀ k,
    (rows.map TriggerRecord.key).count k + held k st =
      ((registrations is).map RegisterEvent.key).count k
  landed : st.agg.triggersLanded = landedTriggers rows
  pending : st.agg.attemptsUnknownPending = pendings rows
  wins : ∀ s, (st.agg.stats s).landed = winsOf s rows
  ids : AList.Each (fun s row => row.senderId = s) st.agg.perSender
  senders : ∀ s, s ∈ st.agg.perSender ↔ ∃ reg ∈ registrations is, reg.senderId = s
  attempts : ∀ k ∈ st.attempts, k ∈ (registrations is).map RegisterEvent.key

section Logged

variable {is : List Input} {st st' : State} {rows rows' : List TriggerRecord}

theorem Logged.empty : Logged [] {} [] where
  ledger := ledger_empty
  keys _ _ := rfl
  landed := rfl
  pending := rfl
  wins _ := rfl
  ids s row hrow := by cases hrow
  senders s := ⟨fun hs => absurd hs (AList.notMem_empty s), fun ⟨_, hreg, _⟩ => by cases hreg⟩
  attempts k hk := by cases hk

theorem Logged.written (h : Logged is st rows) (hw : Written st st' rows') :
    Logged is st' (rows ++ rows') where
  ledger := hw.ledger
  keys hnodup k := by
    have hk := h.keys hnodup k
    have hk' := hw.keys k
    rw [List.map_append, List.count_append]
    omega
  landed := by rw [hw.landed, h.landed, landedTriggers_append]
  pending := by rw [hw.pending, h.pending, pendings, pendings, pendings, List.countP_append]
  wins s := by rw [hw.wins, h.wins, winsOf, winsOf, winsOf, List.countP_append]
  ids := hw.ids h.ids
  senders s := by
    refine ⟨fun hs => ?_, fun hs => hw.senders s ((h.senders s).mpr hs)⟩
    rcases hw.owned s hs with hs | ⟨k, hk, rfl⟩
    · exact (h.senders s).mp hs
    · obtain ⟨reg, hreg, rfl⟩ := List.mem_map.mp (h.attempts k hk)
      exact ⟨reg, hreg, rfl⟩
  attempts k hk := h.attempts k (hw.attempts k hk)

/-- A registration opens an attempt under a key of its own, and its sender has a row. -/
theorem Logged.register (h : Logged is st rows) (cfg : RecorderConfig) (reg : RegisterEvent) :
    Logged (is ++ [.register reg])
      (handleRegister cfg { st with agg := st.agg.recordRegister reg } reg) rows := by
  have hregs : registrations (is ++ [.register reg]) = registrations is ++ [reg] :=
    registrations_snoc is (.register reg)
  have hposts := posts_recordRegister st.agg reg
  refine ⟨handleRegister_ledger h.ledger cfg reg, fun hnodup k => ?_, h.landed, h.pending,
    fun s => ?_, ?_, fun s => ?_, fun k hk => ?_⟩
  · rw [hregs, List.map_append, List.map_singleton] at hnodup ⊢
    have hk := h.keys hnodup.of_append_left
    have hfresh : ((registrations is).map RegisterEvent.key).count reg.key = 0 :=
      List.count_eq_zero.mpr fun hmem => by
        simpa using List.disjoint_of_nodup_append hnodup hmem
    have hnot : reg.key ∉ st.attempts := fun hin => by
      obtain ⟨att, hatt⟩ := Option.isSome_iff_exists.mp (AList.lookup_isSome.mpr hin)
      have hheld := AList.weight_erase (fun key (_ : TriggerAttempt) =>
        if key = reg.key then 1 else 0) st.attempts reg.key
      rw [AList.weightOf_eq hatt, if_pos rfl] at hheld
      have hkey := hk reg.key
      unfold held at hkey
      omega
    have hins := AList.weight_insert (fun key (_ : TriggerAttempt) => if key = k then 1 else 0)
      st.attempts reg.key ⟨some reg, none, none, reg.triggerObservedAt + cfg.deadline⟩
    rw [AList.weightOf_eq_zero (AList.lookup_eq_none.mpr hnot)] at hins
    have hkk := hk k
    have hone : [reg.key].count k = if reg.key = k then 1 else 0 := by
      rw [List.count_singleton]
      by_cases heq : reg.key = k <;> simp [heq]
    rw [List.count_append, hone]
    unfold held handleRegister at *
    dsimp only at *
    omega
  · obtain ⟨-, hl, -, -⟩ := hposts.counts s
    have hwins := h.wins s
    simp only [Option.some.injEq, reduceCtorEq, and_false, if_false, Nat.add_zero] at hl
    exact hl.trans hwins
  · exact h.ids.insert (stats_senderId h.ids reg.senderId)
  · have hs : s ∈ (st.agg.recordRegister reg).perSender ↔
        s = reg.senderId ∨ s ∈ st.agg.perSender := AList.mem_insert _
    refine hs.trans ?_
    rw [h.senders, hregs]
    simp [or_and_right, exists_or, or_comm, eq_comm]
  · rw [hregs, List.map_append]
    rcases (AList.mem_insert _).mp hk with rfl | hk
    · simp
    · exact List.mem_append_left _ (h.attempts k hk)

theorem logged_run (cfg : RecorderConfig) (is : List Input) :
    Logged is ((machine cfg).run {} is).1 (records ((machine cfg).run {} is).2) := by
  refine (machine cfg).run_rule (fun is st os => Logged is st (records os)) {} Logged.empty
    (fun is st os i h => ?_) is
  have hother (hi : registration? i = none) :
      Logged (is ++ [i]) ((machine cfg).step st i).1 (records (os ++ ((machine cfg).step st i).2)) := by
    have hsame : registrations (is ++ [i]) = registrations is := by
      rw [registrations_snoc, hi]
      simp
    have hw := h.written (written_law.step cfg st hi h.ledger)
    rw [← records_append] at hw
    exact ⟨hw.ledger, hsame ▸ hw.keys, hw.landed, hw.pending, hw.wins, hw.ids, hsame ▸ hw.senders,
      hsame ▸ hw.attempts⟩
  cases i with
  | register reg =>
    have hreg := h.register cfg reg
    rw [records_append]
    exact (List.append_nil (records os)).symm ▸ hreg
  | send s => exact hother rfl
  | matched m cache now => exact hother rfl
  | sweep now => exact hother rfl

/-- The whole loop, its final flush included. -/
theorem logged_runLoop (cfg : RecorderConfig) (is : List Input) :
    Logged is (runLoop cfg is).1 (records (runLoop cfg is).2) := by
  have hrun := logged_run cfg is
  have hflush := written_law.concludePending cfg ((machine cfg).run {} is).1
    ((machine cfg).run {} is).1.attempts.keys hrun.ledger
  unfold runLoop
  rw [records_append]
  exact hrun.written hflush

/-- Where no key is registered twice, the rows of the run carry the registered keys. -/
theorem keys_runLoop (cfg : RecorderConfig) {is : List Input}
    (h : ((registrations is).map RegisterEvent.key).Nodup) :
    ((records (runLoop cfg is).2).map TriggerRecord.key).Perm
      ((registrations is).map RegisterEvent.key) := by
  refine List.perm_iff_count.mpr fun k => ?_
  have hk := (logged_runLoop cfg is).keys h k
  have hempty : held k (runLoop cfg is).1 = 0 := AList.weight_eq_zero _ (opened_flush cfg _)
  omega

end Logged

end SolanaBench.TickTrigger.Recorder
