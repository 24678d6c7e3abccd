import SolanaBench.TickTrigger.RecorderRows

/-! Where the fields of a row come from: the registration of its key, a reply under that key, and a
match of the registered signature. -/
namespace SolanaBench.TickTrigger.Recorder

open TriggerEngine (MatchEvent)

/-- What an attempt holds was received for it. -/
structure Sourced (is : List Input) (reg : RegisterEvent) (att : TriggerAttempt) : Prop where
  registered : reg ∈ registrations is
  register : att.register = some reg
  send : ∀ s ∈ att.send, .send s ∈ is ∧ s.key = reg.key
  matched : ∀ m ∈ att.matched, m.signature = reg.signature ∧ ∃ cache now, .matched m cache now ∈ is

/-- A row is written from an attempt, with the outcome that its reply and its match call for. -/
structure Attested (cfg : RecorderConfig) (is : List Input) (row : TriggerRecord)
    (reg : RegisterEvent) (att : TriggerAttempt) : Prop where
  sourced : Sourced is reg att
  written : row = triggerRecord cfg att reg row.finalOutcome
  landed : row.finalOutcome = .landed ↔ att.matched.isSome = true
  failed : row.finalOutcome = .sendError → ∃ s ∈ att.send, s.outcome.error.isSome = true

/-- What the open attempts and the signatures go back to. -/
structure Vouched (is : List Input) (st : State) : Prop where
  attempts : ∀ key att, st.attempts.lookup key = some att →
    ∃ reg, Sourced is reg att ∧ reg.key = key ∧ att.matched = none
  sigs : ∀ sig key, st.sigToKey.lookup sig = some key →
    ∃ reg ∈ registrations is, reg.key = key ∧ reg.signature = sig

theorem vouched_empty : Vouched [] {} where
  attempts key att hatt := by simp at hatt
  sigs sig key hsig := by simp at hsig

section

variable {cfg : RecorderConfig} {is : List Input} {st st' : State} {reg : RegisterEvent}
  {att : TriggerAttempt}

theorem Sourced.append (h : Sourced is reg att) (js : List Input) : Sourced (is ++ js) reg att where
  registered := by
    rw [registrations, List.filterMap_append]
    exact List.mem_append_left _ h.registered
  register := h.register
  send s hs := ⟨List.mem_append_left _ (h.send s hs).1, (h.send s hs).2⟩
  matched m hm := by
    obtain ⟨hsig, cache, now, hin⟩ := h.matched m hm
    exact ⟨hsig, cache, now, List.mem_append_left _ hin⟩

theorem Attested.append {row : TriggerRecord} (h : Attested cfg is row reg att) (js : List Input) :
    Attested cfg (is ++ js) row reg att :=
  ⟨h.sourced.append js, h.written, h.landed, h.failed⟩

theorem Vouched.append (h : Vouched is st) (js : List Input) : Vouched (is ++ js) st where
  attempts key att hatt := by
    obtain ⟨reg, hs, hkey, hm⟩ := h.attempts key att hatt
    exact ⟨reg, hs.append js, hkey, hm⟩
  sigs sig key hsig := by
    obtain ⟨reg, hreg, hkey, heq⟩ := h.sigs sig key hsig
    refine ⟨reg, ?_, hkey, heq⟩
    rw [registrations, List.filterMap_append]
    exact List.mem_append_left _ hreg

/-- Closing an attempt forgets entries of the two maps, and nothing else. -/
theorem lookup_conclude (cfg : RecorderConfig) (st : State) (o : FinalOutcome)
    (us : TriggerAttempt → Option ℕ) (key : Key) :
    (∀ k att, (conclude cfg o us st key).1.attempts.lookup k = some att →
      st.attempts.lookup k = some att ∧ k ≠ key) ∧
    ∀ sig k, (conclude cfg o us st key).1.sigToKey.lookup sig = some k →
      st.sigToKey.lookup sig = some k := by
  unfold conclude
  cases hatt : st.attempts.lookup key with
  | none =>
    refine ⟨fun k att hk => ⟨hk, fun heq => ?_⟩, fun _ _ h => h⟩
    rw [heq, hatt] at hk
    cases hk
  | some att =>
    dsimp only
    refine ⟨fun k att' hk => ?_, fun sig k hsig => ?_⟩
    · have hne : k ≠ key := by
        rintro rfl
        rw [AList.lookup_erase] at hk
        cases hk
      exact ⟨(AList.lookup_erase_ne hne).symm.trans hk, hne⟩
    · split at hsig
      · next reg hreg =>
        have hne : sig ≠ reg.signature := by
          rintro rfl
          rw [AList.lookup_erase] at hsig
          cases hsig
        exact (AList.lookup_erase_ne hne).symm.trans hsig
      · exact hsig

theorem Vouched.conclude (h : Vouched is st) (cfg : RecorderConfig) (o : FinalOutcome)
    (us : TriggerAttempt → Option ℕ) (key : Key) : Vouched is (conclude cfg o us st key).1 := by
  obtain ⟨hattempts, hsigs⟩ := lookup_conclude cfg st o us key
  exact ⟨fun k att hk => h.attempts k att (hattempts k att hk).1,
    fun sig k hk => h.sigs sig k (hsigs sig k hk)⟩

theorem mem_records_conclude {o : FinalOutcome} {us : TriggerAttempt → Option ℕ} {key : Key}
    {row : TriggerRecord} (h : row ∈ records (conclude cfg o us st key).2) :
    ∃ att reg, st.attempts.lookup key = some att ∧ att.register = some reg ∧
      row = triggerRecord cfg att reg o := by
  unfold Recorder.conclude at h
  cases hatt : st.attempts.lookup key with
  | none =>
    rw [hatt] at h
    cases h
  | some att =>
    rw [hatt] at h
    dsimp only at h
    unfold emitRecord at h
    cases hreg : att.register with
    | none =>
      rw [hreg] at h
      cases h
    | some reg =>
      rw [hreg] at h
      exact ⟨att, reg, rfl, hreg, List.mem_singleton.mp h⟩

/-- An attempt without a match is closed as pending. -/
theorem attested_concludePending (h : Vouched is st) (keys : List Key) :
    Vouched is ((concludePending cfg).run st keys).1 ∧
      ∀ row ∈ records ((concludePending cfg).run st keys).2,
        ∃ reg att, Attested cfg is row reg att := by
  refine (concludePending cfg).run_rule (fun _ t os => Vouched is t ∧
    ∀ row ∈ records os, ∃ reg att, Attested cfg is row reg att) st
      ⟨h, List.forall_mem_nil _⟩ ?_ keys
  rintro _ t os key ⟨ht, hrows⟩
  refine ⟨ht.conclude cfg .unknownPending _ key, ?_⟩
  rw [records_append]
  refine List.forall_mem_append.mpr ⟨hrows, fun row hrow => ?_⟩
  obtain ⟨att, reg, hatt, hreg, rfl⟩ := mem_records_conclude hrow
  obtain ⟨reg', hs, -, hm⟩ := ht.attempts key att hatt
  obtain rfl : reg' = reg := Option.some.inj (hs.register.symm.trans hreg)
  exact ⟨reg', att, hs, rfl, by simp [triggerRecord, hm], nofun⟩

theorem attested_handleSend (h : Vouched is st) (s : SendEvent) (hs : .send s ∈ is) :
    Vouched is (handleSend cfg st s).1 ∧
      ∀ row ∈ records (handleSend cfg st s).2, ∃ reg att, Attested cfg is row reg att := by
  unfold handleSend
  cases hatt : st.attempts.lookup s.key with
  | none => exact ⟨h, List.forall_mem_nil _⟩
  | some att =>
    obtain ⟨reg, hsrc, hkey, hm⟩ := h.attempts s.key att hatt
    have hsrc' : Sourced is reg { att with send := some s } := by
      refine ⟨hsrc.registered, hsrc.register, fun s' hs' => ?_, hsrc.matched⟩
      obtain rfl := Option.some.inj hs'
      exact ⟨hs, hkey.symm⟩
    have hfill : Vouched is
        { st with attempts := st.attempts.insert s.key { att with send := some s } } := by
      refine ⟨fun k att' hk => ?_, h.sigs⟩
      rcases eq_or_ne k s.key with rfl | hne
      · obtain rfl := Option.some.inj ((AList.lookup_insert _).symm.trans hk)
        exact ⟨reg, hsrc', hkey, hm⟩
      · exact h.attempts k att' ((AList.lookup_insert_ne hne).symm.trans hk)
    dsimp only
    split
    · next herr =>
      refine ⟨hfill.conclude cfg .sendError _ s.key, fun row hrow => ?_⟩
      obtain ⟨att', reg', hatt', hreg', rfl⟩ := mem_records_conclude hrow
      obtain rfl := Option.some.inj ((AList.lookup_insert _).symm.trans hatt')
      obtain rfl : reg = reg' := Option.some.inj (hsrc.register.symm.trans hreg')
      exact ⟨reg, _, hsrc', rfl, by simp [triggerRecord, hm], fun _ => ⟨s, rfl, herr⟩⟩
    · exact ⟨hfill, List.forall_mem_nil _⟩

/-- With one registration for each key, a match finds the attempt that has its signature. -/
theorem attested_handleMatch (hnodup : ((registrations is).map RegisterEvent.key).Nodup)
    (h : Vouched is st) (m : MatchEvent) (cache : LocalCompute.SlotHashCache) (now : Instant)
    (hin : .matched m cache now ∈ is) :
    Vouched is (handleMatch cfg st m cache now).1 ∧
      ∀ row ∈ records (handleMatch cfg st m cache now).2,
        ∃ reg att, Attested cfg is row reg att := by
  unfold handleMatch
  cases hsig : st.sigToKey.lookup m.signature with
  | none => exact ⟨h, List.forall_mem_nil _⟩
  | some key =>
    dsimp only
    cases hatt : st.attempts.lookup key with
    | none =>
      refine ⟨⟨h.attempts, fun sig k hk => h.sigs sig k ?_⟩, List.forall_mem_nil _⟩
      have hne : sig ≠ m.signature := by
        rintro rfl
        rw [AList.lookup_erase] at hk
        cases hk
      exact (AList.lookup_erase_ne hne).symm.trans hk
    | some att =>
      dsimp only
      obtain ⟨reg, hsrc, hkey, -⟩ := h.attempts key att hatt
      obtain ⟨reg', hreg', hkey', hsig'⟩ := h.sigs m.signature key hsig
      obtain rfl : reg' = reg :=
        List.inj_on_of_nodup_map hnodup hreg' hsrc.registered (hkey'.trans hkey.symm)
      have hsrc' : Sourced is reg' { att with matched := some m } := by
        refine ⟨hsrc.registered, hsrc.register, hsrc.send, fun m' hm' => ?_⟩
        obtain rfl := Option.some.inj hm'
        exact ⟨hsig'.symm, cache, now, hin⟩
      obtain ⟨hattempts, hsigs⟩ := lookup_conclude cfg
        { st with attempts := st.attempts.insert key { att with matched := some m } } .landed
        sendToObservedUs key
      refine ⟨⟨fun k att' hk => ?_, fun sig k hk => h.sigs sig k (hsigs sig k hk)⟩,
        fun row hrow => ?_⟩
      · obtain ⟨hk, hne⟩ := hattempts k att' hk
        exact h.attempts k att' ((AList.lookup_insert_ne hne).symm.trans hk)
      · rw [records_append, records_nonceHook, List.nil_append] at hrow
        obtain ⟨att', reg'', hatt', hreg'', rfl⟩ := mem_records_conclude hrow
        obtain rfl := Option.some.inj ((AList.lookup_insert _).symm.trans hatt')
        obtain rfl : reg' = reg'' := Option.some.inj (hsrc.register.symm.trans hreg'')
        exact ⟨reg', _, hsrc', rfl, iff_of_true rfl rfl, nofun⟩

/-- An attempt is opened with nothing but its registration. -/
theorem Vouched.register (h : Vouched is st) (cfg : RecorderConfig) {reg : RegisterEvent}
    (hreg : reg ∈ registrations is) (agg : AggregateState) :
    Vouched is (handleRegister cfg { st with agg := agg } reg) where
  attempts key att hatt := by
    rcases eq_or_ne key reg.key with rfl | hne
    · obtain rfl := Option.some.inj ((AList.lookup_insert _).symm.trans hatt)
      exact ⟨reg, ⟨hreg, rfl, nofun, nofun⟩, rfl, rfl⟩
    · exact h.attempts key att ((AList.lookup_insert_ne hne).symm.trans hatt)
  sigs sig key hsig := by
    rcases eq_or_ne sig reg.signature with rfl | hne
    · obtain rfl := Option.some.inj ((AList.lookup_insert _).symm.trans hsig)
      exact ⟨reg, hreg, rfl, rfl⟩
    · exact h.sigs sig key ((AList.lookup_insert_ne hne).symm.trans hsig)

theorem attested_step (cfg : RecorderConfig) (h : Vouched is st) (i : Input)
    (hnodup : ((registrations (is ++ [i])).map RegisterEvent.key).Nodup) :
    Vouched (is ++ [i]) ((machine cfg).step st i).1 ∧
      ∀ row ∈ records ((machine cfg).step st i).2,
        ∃ reg att, Attested cfg (is ++ [i]) row reg att := by
  have hi : i ∈ is ++ [i] := List.mem_append_right _ (List.mem_singleton_self i)
  have h' := h.append [i]
  cases i with
  | register reg =>
    have hreg : reg ∈ registrations (is ++ [.register reg]) := List.mem_filterMap.mpr ⟨_, hi, rfl⟩
    exact ⟨h'.register cfg hreg _, List.forall_mem_nil _⟩
  | send s =>
    have hagg : Vouched (is ++ [.send s]) { st with agg := st.agg.recordSend s } :=
      ⟨h'.attempts, h'.sigs⟩
    exact attested_handleSend hagg s hi
  | matched m cache now => exact attested_handleMatch hnodup h' m cache now hi
  | sweep now => exact attested_concludePending h' _

end

/-- Where every key is registered once, each row of a run is attested. -/
theorem attested_run (cfg : RecorderConfig) (is : List Input)
    (hnodup : ((registrations is).map RegisterEvent.key).Nodup) :
    Vouched is ((machine cfg).run {} is).1 ∧
      ∀ row ∈ records ((machine cfg).run {} is).2, ∃ reg att, Attested cfg is row reg att := by
  induction is using List.reverseRecOn with
  | nil => exact ⟨vouched_empty, List.forall_mem_nil _⟩
  | append_singleton is i ih =>
    have hpre : ((registrations is).map RegisterEvent.key).Nodup := by
      rw [registrations_snoc, List.map_append] at hnodup
      exact hnodup.of_append_left
    obtain ⟨hv, hrows⟩ := ih hpre
    obtain ⟨hv', hrows'⟩ := attested_step cfg hv i hnodup
    rw [EventMachine.run_snoc_fst, EventMachine.run_snoc_snd, records_append]
    refine ⟨hv', List.forall_mem_append.mpr ⟨fun row hrow => ?_, hrows'⟩⟩
    obtain ⟨reg, att, hatt⟩ := hrows row hrow
    exact ⟨reg, att, hatt.append [i]⟩

theorem attested_runLoop (cfg : RecorderConfig) (is : List Input)
    (hnodup : ((registrations is).map RegisterEvent.key).Nodup) :
    ∀ row ∈ records (runLoop cfg is).2, ∃ reg att, Attested cfg is row reg att := by
  obtain ⟨hv, hrows⟩ := attested_run cfg is hnodup
  unfold runLoop
  rw [records_append]
  exact List.forall_mem_append.mpr ⟨hrows, (attested_concludePending hv _).2⟩

end SolanaBench.TickTrigger.Recorder
