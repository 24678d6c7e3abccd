import SolanaBench.Lib.AListEach
import SolanaBench.TickTrigger.Recorder

/-! One attempt in any run of the recorder. Nothing is assumed of the order of the
messages: replies and matches served before the registration are ignored, and the first
of its error reply, its match and a sweep at or past its deadline closes the attempt. -/
namespace SolanaBench.TickTrigger.Recorder

open TriggerEngine (MatchEvent)

def registration? : Input → Option RegisterEvent
  | .register reg => some reg
  | _ => none

def registrations (is : List Input) : List RegisterEvent := is.filterMap registration?

theorem registrations_snoc (is : List Input) (i : Input) :
    registrations (is ++ [i]) = registrations is ++ (registration? i).toList := by
  cases h : registration? i <;> simp [registrations, List.filterMap_append, h]

/-- Whether the input closes the open attempt of `reg`, and with which outcome. -/
def ending (cfg : RecorderConfig) (reg : RegisterEvent) : Input → Option FinalOutcome
  | .register _ => none
  | .send s => if s.key = reg.key ∧ s.outcome.error.isSome then some .sendError else none
  | .matched m _ _ => if m.signature = reg.signature then some .landed else none
  | .sweep now =>
    if reg.triggerObservedAt + cfg.deadline ≤ now then some .unknownPending else none

/-- The first closing input after the registration; what is still open is flushed. -/
def closedAs (cfg : RecorderConfig) (reg : RegisterEvent) (is : List Input) : FinalOutcome :=
  (is.findSome? (ending cfg reg)).getD .unknownPending

/-- No attempt registered in `is` has the key or the signature of `reg`. -/
def Unshared (reg : RegisterEvent) (is : List Input) : Prop :=
  ∀ reg' ∈ registrations is, reg'.key ≠ reg.key ∧ reg'.signature ≠ reg.signature

instance (reg : RegisterEvent) (is : List Input) : Decidable (Unshared reg is) :=
  inferInstanceAs (Decidable (∀ reg' ∈ registrations is, _))

/-! ## The rows of one key -/

def rowsOf (key : Key) (os : List Output) : List TriggerRecord :=
  (records os).filter fun row => row.key = key

@[simp] theorem records_nil : records [] = [] := rfl

@[simp] theorem records_append (os ps : List Output) :
    records (os ++ ps) = records os ++ records ps := by
  simp [records, List.filterMap_append]

@[simp] theorem records_fetchAdd (c : Counter) (n : ℕ) (os : List Output) :
    records (.fetchAdd c n :: os) = records os := rfl

@[simp] theorem records_record (r : TriggerRecord) (os : List Output) :
    records (.send (.record r) :: os) = r :: records os := rfl

@[simp] theorem rowsOf_nil (key : Key) : rowsOf key [] = [] := rfl

@[simp] theorem rowsOf_append (key : Key) (os ps : List Output) :
    rowsOf key (os ++ ps) = rowsOf key os ++ rowsOf key ps := by
  simp [rowsOf]

theorem rowsOf_of_records_nil {key : Key} {os : List Output} (h : records os = []) :
    rowsOf key os = [] := by simp [rowsOf, h]

@[simp] theorem records_nonceHook (cfg : RecorderConfig) (att : TriggerAttempt) (m : MatchEvent)
    (cache : LocalCompute.SlotHashCache) (now : Instant) :
    records (nonceHook cfg att m cache now) = [] := by
  unfold nonceHook
  split
  · split
    · rfl
    · split <;> rfl
  · rfl

/-! ## What one input does -/

/-- What identifies an attempt in the map; replies only fill the other fields. -/
def TriggerAttempt.core (att : TriggerAttempt) : Option RegisterEvent × Instant :=
  (att.register, att.deadlineAt)

def State.coreOf (st : State) (key : Key) : Option (Option RegisterEvent × Instant) :=
  (st.attempts.lookup key).map TriggerAttempt.core

/-- The attempt the configuration makes of a registration. -/
def openCore (cfg : RecorderConfig) (reg : RegisterEvent) : Option RegisterEvent × Instant :=
  (some reg, reg.triggerObservedAt + cfg.deadline)

/-- Nothing is opened or closed. -/
structure Quiet (st st' : State) (os : List Output) : Prop where
  cores : ∀ key, st'.coreOf key = st.coreOf key
  sigs : st'.sigToKey = st.sigToKey
  rows : records os = []

/-- The attempt of `reg` leaves the maps with one row. -/
structure Closes (reg : RegisterEvent) (o : FinalOutcome) (st st' : State) (os : List Output) :
    Prop where
  cores : ∀ key, st'.coreOf key = if key = reg.key then none else st.coreOf key
  sigs : ∀ sig, st'.sigToKey.lookup sig =
    if sig = reg.signature then none else st.sigToKey.lookup sig
  row : ∃ row, records os = [row] ∧ row.key = reg.key ∧ row.txSignature = reg.signature ∧
    row.finalOutcome = o

theorem Closes.rowsOf_self {reg : RegisterEvent} {o : FinalOutcome} {st st' : State}
    {os : List Output} (h : Closes reg o st st' os) :
    ∃ row, rowsOf reg.key os = [row] ∧ row.txSignature = reg.signature ∧ row.finalOutcome = o := by
  obtain ⟨row, hrow, hkey, hsig, hout⟩ := h.row
  refine ⟨row, ?_, hsig, hout⟩
  unfold rowsOf
  rw [hrow, List.filter_singleton, hkey, decide_eq_true rfl]
  rfl

theorem coreOf_insert (st : State) (key k : Key) (att : TriggerAttempt) (sigs) (agg) :
    State.coreOf ⟨st.attempts.insert key att, sigs, agg⟩ k =
      if k = key then some att.core else st.coreOf k := by
  unfold State.coreOf
  rw [AList.lookup_insert_eq]
  split <;> rfl

theorem conclude_closes (cfg : RecorderConfig) (o : FinalOutcome)
    (us : TriggerAttempt → Option ℕ) (st : State) (reg : RegisterEvent)
    {d : Instant} (h : st.coreOf reg.key = some (some reg, d)) :
    Closes reg o st (conclude cfg o us st reg.key).1 (conclude cfg o us st reg.key).2 := by
  obtain ⟨att, hatt, hcore⟩ := Option.map_eq_some_iff.mp h
  have hreg : att.register = some reg := congrArg Prod.fst hcore
  unfold conclude
  rw [hatt]
  simp only [hreg]
  refine ⟨fun key => ?_, fun sig => ?_, ?_⟩
  · unfold State.coreOf
    rw [AList.lookup_erase_eq]
    split <;> rfl
  · exact AList.lookup_erase_eq ..
  · exact ⟨triggerRecord cfg att reg o, by simp [emitRecord, hreg], rfl, rfl, rfl⟩

/-- An error reply closes an open attempt; any other reply is only stored. -/
theorem handleSend_open (cfg : RecorderConfig) (st : State) (s : SendEvent) {reg : RegisterEvent}
    {d : Instant} (hs : reg.key = s.key) (h : st.coreOf reg.key = some (some reg, d)) :
    (s.outcome.error.isSome →
      Closes reg .sendError st (handleSend cfg st s).1 (handleSend cfg st s).2) ∧
    (¬s.outcome.error.isSome →
      Quiet st (handleSend cfg st s).1 (handleSend cfg st s).2) := by
  obtain ⟨att, hatt, hcore⟩ := Option.map_eq_some_iff.mp h
  rw [hs] at hatt
  unfold handleSend
  rw [hatt]
  have hsame (key : Key) : State.coreOf
      ⟨st.attempts.insert s.key { att with send := some s }, st.sigToKey, st.agg⟩ key =
        st.coreOf key := by
    rw [coreOf_insert]
    split
    · rename_i hk
      rw [hk, ← hs, h, ← hcore]
      rfl
    · rfl
  refine ⟨fun herr => ?_, fun herr => ?_⟩
  · simp only [herr, if_true]
    have hc := conclude_closes cfg .sendError (fun _ => none) _ reg ((hsame reg.key).trans h)
    rw [hs] at hc
    exact ⟨fun key => by rw [hc.cores key, hsame key], hc.sigs, hc.row⟩
  · simp only [herr]
    exact ⟨hsame, rfl, rfl⟩

theorem handleSend_closed (cfg : RecorderConfig) (st : State) (s : SendEvent)
    (h : st.coreOf s.key = none) : Quiet st (handleSend cfg st s).1 (handleSend cfg st s).2 := by
  have hatt : st.attempts.lookup s.key = none := Option.map_eq_none_iff.mp h
  unfold handleSend
  rw [hatt]
  exact ⟨fun _ => rfl, rfl, rfl⟩

theorem handleMatch_open (cfg : RecorderConfig) (st : State) (m : MatchEvent)
    (cache : LocalCompute.SlotHashCache) (now : Instant) {reg : RegisterEvent} {d : Instant}
    (hsig : st.sigToKey.lookup m.signature = some reg.key)
    (h : st.coreOf reg.key = some (some reg, d)) :
    Closes reg .landed st (handleMatch cfg st m cache now).1
      (handleMatch cfg st m cache now).2 := by
  obtain ⟨att, hatt, hcore⟩ := Option.map_eq_some_iff.mp h
  unfold handleMatch
  simp only [hsig, hatt]
  have hsame (key : Key) : State.coreOf
      ⟨st.attempts.insert reg.key { att with matched := some m }, st.sigToKey, st.agg⟩ key =
        st.coreOf key := by
    rw [coreOf_insert]
    split
    · rename_i hk
      rw [hk, h, ← hcore]
      rfl
    · rfl
  have hc := conclude_closes cfg .landed sendToObservedUs _ reg ((hsame reg.key).trans h)
  refine ⟨fun key => by rw [hc.cores key, hsame key], hc.sigs, ?_⟩
  rw [records_append, records_nonceHook, List.nil_append]
  exact hc.row

theorem handleMatch_closed (cfg : RecorderConfig) (st : State) (m : MatchEvent)
    (cache : LocalCompute.SlotHashCache) (now : Instant)
    (h : st.sigToKey.lookup m.signature = none) :
    Quiet st (handleMatch cfg st m cache now).1 (handleMatch cfg st m cache now).2 := by
  unfold handleMatch
  rw [h]
  exact ⟨fun _ => rfl, rfl, rfl⟩

/-- Attempts are stored under the key of their registration. -/
def Keyed (st : State) : Prop :=
  ∀ key reg d, st.coreOf key = some (some reg, d) → reg.key = key

theorem conclude_other (cfg : RecorderConfig) (o : FinalOutcome)
    (us : TriggerAttempt → Option ℕ) {st : State} (hk : Keyed st) {key k : Key} (hne : k ≠ key) :
    (conclude cfg o us st key).1.coreOf k = st.coreOf k ∧
      rowsOf k (conclude cfg o us st key).2 = [] := by
  unfold conclude
  cases hatt : st.attempts.lookup key with
  | none => exact ⟨rfl, rfl⟩
  | some att =>
    refine ⟨by simp [State.coreOf, AList.lookup_erase_ne hne], ?_⟩
    cases hreg : att.register with
    | none => simp [emitRecord, hreg]
    | some reg =>
      have hkey : reg.key = key := hk key reg att.deadlineAt (by
        simp [State.coreOf, hatt, TriggerAttempt.core, hreg])
      have hrow : (triggerRecord cfg att reg o).key ≠ k := fun h => hne (h.symm.trans hkey)
      simp [emitRecord, hreg, rowsOf, hrow]

/-! ## The attempt in the two maps -/

/-- The other attempts of the maps touch neither the key nor the signature of `reg`. -/
structure Apart (reg : RegisterEvent) (st : State) : Prop where
  keyed : Keyed st
  signatures : ∀ key reg' d, key ≠ reg.key → st.coreOf key = some (some reg', d) →
    reg'.signature ≠ reg.signature
  keys : ∀ sig, st.sigToKey.lookup sig = some reg.key → sig = reg.signature

structure Open (cfg : RecorderConfig) (reg : RegisterEvent) (st : State) : Prop where
  core : st.coreOf reg.key = some (openCore cfg reg)
  sig : st.sigToKey.lookup reg.signature = some reg.key

structure Absent (reg : RegisterEvent) (st : State) : Prop where
  core : st.coreOf reg.key = none
  sig : st.sigToKey.lookup reg.signature = none

/-- The step leaves the attempt of `reg` as it was and writes no row of it. -/
structure Untouched (reg : RegisterEvent) (st st' : State) (os : List Output) : Prop where
  core : st'.coreOf reg.key = st.coreOf reg.key
  sig : st'.sigToKey.lookup reg.signature = st.sigToKey.lookup reg.signature
  rows : rowsOf reg.key os = []
  apart : Apart reg st'

/-- The attempt of `reg` leaves the maps with one row. -/
structure Ended (reg : RegisterEvent) (o : FinalOutcome) (st' : State) (os : List Output) :
    Prop where
  absent : Absent reg st'
  row : ∃ row, rowsOf reg.key os = [row] ∧ row.txSignature = reg.signature ∧ row.finalOutcome = o
  apart : Apart reg st'

variable {cfg : RecorderConfig} {reg : RegisterEvent} {st st' st'' : State} {os os' : List Output}
  {o : FinalOutcome}

theorem Untouched.refl (h : Apart reg st) : Untouched reg st st [] := ⟨rfl, rfl, rfl, h⟩

theorem Untouched.trans (h : Untouched reg st st' os) (h' : Untouched reg st' st'' os') :
    Untouched reg st st'' (os ++ os') where
  core := h'.core.trans h.core
  sig := h'.sig.trans h.sig
  rows := by rw [rowsOf_append, h.rows, h'.rows, List.append_nil]
  apart := h'.apart

theorem Untouched.open_iff (h : Untouched reg st st' os) : Open cfg reg st' ↔ Open cfg reg st :=
  ⟨fun hop => ⟨h.core.symm.trans hop.core, h.sig.symm.trans hop.sig⟩,
    fun hop => ⟨h.core.trans hop.core, h.sig.trans hop.sig⟩⟩

theorem Untouched.absent (h : Untouched reg st st' os) (ha : Absent reg st) : Absent reg st' :=
  ⟨h.core.trans ha.core, h.sig.trans ha.sig⟩

theorem Untouched.then_ended (h : Untouched reg st st' os) (h' : Ended reg o st'' os') :
    Ended reg o st'' (os ++ os') where
  absent := h'.absent
  row := by rw [rowsOf_append, h.rows, List.nil_append]; exact h'.row
  apart := h'.apart

theorem Ended.then_untouched (h : Ended reg o st' os) (h' : Untouched reg st' st'' os') :
    Ended reg o st'' (os ++ os') where
  absent := h'.absent h.absent
  row := by rw [rowsOf_append, h'.rows, List.append_nil]; exact h.row
  apart := h'.apart

/-- Nothing new in the maps. -/
theorem Apart.mono (h : Apart reg st)
    (hcores : ∀ key c, st'.coreOf key = some c → st.coreOf key = some c)
    (hsigs : ∀ sig key, st'.sigToKey.lookup sig = some key → st.sigToKey.lookup sig = some key) :
    Apart reg st' where
  keyed key reg' d hc := h.keyed key reg' d (hcores key _ hc)
  signatures key reg' d hne hc := h.signatures key reg' d hne (hcores key _ hc)
  keys sig hs := h.keys sig (hsigs sig _ hs)

theorem Untouched.of_quiet (h : Apart reg st) (hq : Quiet st st' os) : Untouched reg st st' os where
  core := hq.cores reg.key
  sig := by rw [hq.sigs]
  rows := rowsOf_of_records_nil hq.rows
  apart := h.mono (fun key c hc => by rwa [hq.cores] at hc) fun sig key hs => by rwa [hq.sigs] at hs

theorem Ended.of_closes (h : Apart reg st) (hc : Closes reg o st st' os) : Ended reg o st' os where
  absent := ⟨by rw [hc.cores, if_pos rfl], by rw [hc.sigs, if_pos rfl]⟩
  row := hc.rowsOf_self
  apart := by
    refine h.mono (fun key c hk => ?_) fun sig key hs => ?_
    · rw [hc.cores] at hk
      split at hk
      · cases hk
      · exact hk
    · rw [hc.sigs] at hs
      split at hs
      · cases hs
      · exact hs

theorem Apart.withAgg (h : Apart reg st) (agg : AggregateState) :
    Apart reg { st with agg := agg } := h.mono (fun _ _ hc => hc) fun _ _ hs => hs

theorem Untouched.counted (agg : AggregateState) {c : Counter} {n : ℕ}
    (h : Untouched reg { st with agg := agg } st' os) :
    Untouched reg st st' (.fetchAdd c n :: os) := ⟨h.core, h.sig, h.rows, h.apart⟩

theorem Ended.counted {c : Counter} {n : ℕ} (h : Ended reg o st' os) :
    Ended reg o st' (.fetchAdd c n :: os) := ⟨h.absent, h.row, h.apart⟩

/-- What a run of the recorder does to an open attempt. -/
def Becomes (reg : RegisterEvent) (st st' : State) (os : List Output) :
    Option FinalOutcome → Prop
  | none => Untouched reg st st' os
  | some o => Ended reg o st' os

/-! ## Closing attempts -/

theorem conclude_core (cfg : RecorderConfig) (o : FinalOutcome) (us : TriggerAttempt → Option ℕ)
    (st : State) (key k : Key) :
    (conclude cfg o us st key).1.coreOf k = if k = key then none else st.coreOf k := by
  unfold conclude State.coreOf
  cases hatt : st.attempts.lookup key with
  | none =>
    by_cases hk : k = key
    · subst hk
      simp [hatt]
    · simp [hk]
  | some att =>
    dsimp only
    rw [AList.lookup_erase_eq]
    split <;> rfl

/-- Closing an attempt frees its own signature and no other. -/
theorem conclude_sigs (cfg : RecorderConfig) (o : FinalOutcome) (us : TriggerAttempt → Option ℕ)
    (st : State) (key : Key) :
    (conclude cfg o us st key).1.sigToKey = st.sigToKey ∨
      ∃ reg' d, st.coreOf key = some (some reg', d) ∧
        (conclude cfg o us st key).1.sigToKey = st.sigToKey.erase reg'.signature := by
  unfold conclude State.coreOf
  cases hatt : st.attempts.lookup key with
  | none => exact Or.inl rfl
  | some att =>
    cases hreg : att.register with
    | none => exact Or.inl (by simp only [hreg])
    | some reg' =>
      refine Or.inr ⟨reg', att.deadlineAt, ?_, ?_⟩
      · simp [TriggerAttempt.core, hreg]
      · simp only [hreg]

/-- Closing another attempt. -/
theorem conclude_untouched (cfg : RecorderConfig) (o : FinalOutcome)
    (us : TriggerAttempt → Option ℕ) (h : Apart reg st) {key : Key} (hne : key ≠ reg.key) :
    Untouched reg st (conclude cfg o us st key).1 (conclude cfg o us st key).2 := by
  have hsigs := conclude_sigs cfg o us st key
  have hother := conclude_other cfg o us h.keyed hne.symm
  refine ⟨hother.1, ?_, hother.2, h.mono (fun k c hc => ?_) fun sig k hs => ?_⟩
  · rcases hsigs with hsame | ⟨reg', d, hcore, herase⟩
    · rw [hsame]
    · rw [herase, AList.lookup_erase_ne (h.signatures key reg' d hne hcore).symm]
  · rw [conclude_core] at hc
    split at hc
    · cases hc
    · exact hc
  · rcases hsigs with hsame | ⟨reg', d, hcore, herase⟩
    · rwa [hsame] at hs
    · rw [herase, AList.lookup_erase_eq] at hs
      split at hs
      · cases hs
      · exact hs

theorem conclude_ended (cfg : RecorderConfig) (o : FinalOutcome)
    (us : TriggerAttempt → Option ℕ) (h : Apart reg st) (hop : Open cfg reg st) :
    Ended reg o (conclude cfg o us st reg.key).1 (conclude cfg o us st reg.key).2 :=
  Ended.of_closes h (conclude_closes cfg o us st reg hop.core)

theorem concludePending_untouched (keys : List Key) (h : Apart reg st) (hn : reg.key ∉ keys) :
    Untouched reg st ((concludePending cfg).run st keys).1
      ((concludePending cfg).run st keys).2 := by
  induction keys generalizing st with
  | nil => exact Untouched.refl h
  | cons key keys ih =>
    obtain ⟨hne, hrest⟩ : reg.key ≠ key ∧ reg.key ∉ keys := by simpa using hn
    have hstep := conclude_untouched cfg .unknownPending (fun _ => none) h hne.symm
    exact hstep.trans (ih hstep.apart hrest)

theorem concludePending_ended (keys : List Key) (h : Apart reg st) (hop : Open cfg reg st)
    (hn : keys.Nodup) (hmem : reg.key ∈ keys) :
    Ended reg .unknownPending ((concludePending cfg).run st keys).1
      ((concludePending cfg).run st keys).2 := by
  induction keys generalizing st with
  | nil => simp at hmem
  | cons key keys ih =>
    obtain ⟨hfresh, hrest⟩ := List.nodup_cons.mp hn
    by_cases heq : reg.key = key
    · subst heq
      have hend := conclude_ended cfg .unknownPending (fun _ => none) h hop
      exact hend.then_untouched (concludePending_untouched keys hend.apart hfresh)
    · have hstep := conclude_untouched cfg .unknownPending (fun _ => none) h (Ne.symm heq)
      exact hstep.then_ended
        (ih hstep.apart (hstep.open_iff.mpr hop) hrest (by simpa [heq] using hmem))

/-! ## What one input does -/

theorem handleRegister_open (cfg : RecorderConfig) (h : Apart reg st) :
    Open cfg reg (handleRegister cfg st reg) ∧ Apart reg (handleRegister cfg st reg) := by
  have hcore (key) : (handleRegister cfg st reg).coreOf key =
      if key = reg.key then some (openCore cfg reg) else st.coreOf key := coreOf_insert st ..
  have hsig : (handleRegister cfg st reg).sigToKey = st.sigToKey.insert reg.signature reg.key := rfl
  refine ⟨⟨by rw [hcore, if_pos rfl], by rw [hsig, AList.lookup_insert]⟩, ?_, ?_, ?_⟩
  · intro key reg' d hc
    rw [hcore] at hc
    split at hc
    · rename_i hk
      rw [hk, Option.some.inj (congrArg Prod.fst (Option.some.inj hc))]
    · exact h.keyed key reg' d hc
  · intro key reg' d hne hc
    rw [hcore, if_neg hne] at hc
    exact h.signatures key reg' d hne hc
  · intro sig hs
    rw [hsig, AList.lookup_insert_eq] at hs
    split at hs
    · assumption
    · exact h.keys sig hs

/-- The registration of another attempt. -/
theorem handleRegister_untouched (cfg : RecorderConfig) (h : Apart reg st) {reg' : RegisterEvent}
    (hkey : reg'.key ≠ reg.key) (hsig : reg'.signature ≠ reg.signature) :
    Untouched reg st (handleRegister cfg st reg') [] := by
  have hcore (key) : (handleRegister cfg st reg').coreOf key =
      if key = reg'.key then some (openCore cfg reg') else st.coreOf key := coreOf_insert st ..
  have hsigs : (handleRegister cfg st reg').sigToKey = st.sigToKey.insert reg'.signature reg'.key :=
    rfl
  refine ⟨by rw [hcore, if_neg hkey.symm], by rw [hsigs, AList.lookup_insert_ne hsig.symm], rfl,
    ?_, ?_, ?_⟩
  · intro key r d hc
    rw [hcore] at hc
    split at hc
    · rename_i hk
      rw [hk, Option.some.inj (congrArg Prod.fst (Option.some.inj hc))]
    · exact h.keyed key r d hc
  · intro key r d hne hc
    rw [hcore] at hc
    split at hc
    · rw [← Option.some.inj (congrArg Prod.fst (Option.some.inj hc))]
      exact hsig
    · exact h.signatures key r d hne hc
  · intro sig hs
    rw [hsigs, AList.lookup_insert_eq] at hs
    split at hs
    · exact absurd (Option.some.inj hs) hkey
    · exact h.keys sig hs

/-- A reply or a match is stored in its attempt before anything is closed. -/
theorem stored_untouched (h : Apart reg st) {key : Key} {att : TriggerAttempt}
    (att' : TriggerAttempt) (hatt : st.attempts.lookup key = some att) (hcore : att'.core = att.core) :
    Untouched reg st { st with attempts := st.attempts.insert key att' } [] := by
  refine Untouched.of_quiet h ⟨fun k => ?_, rfl, rfl⟩
  rw [coreOf_insert]
  split
  · rename_i hk
    rw [hk, hcore]
    simp [State.coreOf, hatt]
  · rfl

theorem handleSend_other (cfg : RecorderConfig) (h : Apart reg st) {s : SendEvent}
    (hne : s.key ≠ reg.key) :
    Untouched reg st (handleSend cfg st s).1 (handleSend cfg st s).2 := by
  unfold handleSend
  cases hatt : st.attempts.lookup s.key with
  | none => exact Untouched.refl h
  | some att =>
    have hfill := stored_untouched h { att with send := some s } hatt rfl
    dsimp only
    split
    · exact hfill.trans (conclude_untouched cfg _ _ hfill.apart hne)
    · exact hfill

theorem handleMatch_other (cfg : RecorderConfig) (h : Apart reg st) {m : MatchEvent}
    (hne : m.signature ≠ reg.signature) (cache : LocalCompute.SlotHashCache) (now : Instant) :
    Untouched reg st (handleMatch cfg st m cache now).1 (handleMatch cfg st m cache now).2 := by
  unfold handleMatch
  cases hsig : st.sigToKey.lookup m.signature with
  | none => exact Untouched.refl h
  | some key =>
    have hkey : key ≠ reg.key := fun hk => hne (h.keys m.signature (hk ▸ hsig))
    cases hatt : st.attempts.lookup key with
    | none =>
      simp only [hatt]
      refine ⟨rfl, AList.lookup_erase_ne hne.symm, rfl, h.mono (fun _ _ hc => hc) fun sig k hs => ?_⟩
      by_cases hsame : sig = m.signature
      · subst hsame
        simp at hs
      · simpa [AList.lookup_erase_ne hsame] using hs
    | some att =>
      have hfill := stored_untouched h { att with matched := some m } hatt rfl
      have hclose := conclude_untouched cfg .landed sendToObservedUs hfill.apart hkey
      have hdone := hfill.trans hclose
      simp only [hatt]
      refine ⟨hdone.core, hdone.sig, ?_, hdone.apart⟩
      rw [rowsOf_append, rowsOf_of_records_nil (records_nonceHook ..)]
      exact hclose.rows

/-- The attempts a sweep closes. -/
theorem mem_expired {now : Instant} {key : Key} :
    key ∈ (st.attempts.entries.filter fun e => e.2.deadlineAt ≤ now).map Sigma.fst ↔
      ∃ att, st.attempts.lookup key = some att ∧ att.deadlineAt ≤ now := by
  constructor
  · intro hmem
    obtain ⟨⟨k, att⟩, he, rfl⟩ := List.mem_map.mp hmem
    obtain ⟨hin, hdue⟩ := List.mem_filter.mp he
    exact ⟨att, AList.mem_lookup_iff.mpr hin, by simpa using hdue⟩
  · rintro ⟨att, hatt, hdue⟩
    exact List.mem_map.mpr
      ⟨⟨key, att⟩, List.mem_filter.mpr ⟨AList.mem_lookup_iff.mp hatt, by simpa using hdue⟩, rfl⟩

theorem sweepDeadlines_due (cfg : RecorderConfig) (now : Instant) (h : Apart reg st)
    (hop : Open cfg reg st) (hdue : reg.triggerObservedAt + cfg.deadline ≤ now) :
    Ended reg .unknownPending (sweepDeadlines cfg st now).1 (sweepDeadlines cfg st now).2 := by
  obtain ⟨att, hatt, hcore⟩ := Option.map_eq_some_iff.mp hop.core
  have hdead : att.deadlineAt = reg.triggerObservedAt + cfg.deadline := congrArg Prod.snd hcore
  have hnodup : ((st.attempts.entries.filter fun e => e.2.deadlineAt ≤ now).map Sigma.fst).Nodup :=
    st.attempts.nodupKeys.sublist List.filter_sublist
  exact concludePending_ended _ h hop hnodup (mem_expired.mpr ⟨att, hatt, hdead.trans_le hdue⟩)

theorem sweepDeadlines_early (cfg : RecorderConfig) (now : Instant) (h : Apart reg st)
    (hearly : ∀ att, st.attempts.lookup reg.key = some att → now < att.deadlineAt) :
    Untouched reg st (sweepDeadlines cfg st now).1 (sweepDeadlines cfg st now).2 := by
  refine concludePending_untouched _ h fun hmem => ?_
  obtain ⟨att, hatt, hdue⟩ := mem_expired.mp hmem
  exact Nat.not_le_of_lt (hearly att hatt) hdue

/-- Nothing reopens a closed attempt. -/
theorem step_absent (cfg : RecorderConfig) (h : Apart reg st) (habs : Absent reg st) (i : Input)
    (hi : Unshared reg [i]) :
    Untouched reg st ((machine cfg).step st i).1 ((machine cfg).step st i).2 := by
  cases i with
  | register reg' =>
    obtain ⟨hkey, hsig⟩ := hi reg' (by simp [registrations, registration?])
    exact (handleRegister_untouched cfg (h.withAgg _) hkey hsig).counted _
  | send s =>
    refine Untouched.counted (st.agg.recordSend s) ?_
    by_cases hs : s.key = reg.key
    · exact Untouched.of_quiet (h.withAgg _)
        (handleSend_closed cfg _ s (by rw [hs]; exact habs.core))
    · exact handleSend_other cfg (h.withAgg _) hs
  | matched m cache now =>
    refine Untouched.counted st.agg ?_
    by_cases hs : m.signature = reg.signature
    · exact Untouched.of_quiet h (handleMatch_closed cfg st m cache now (by rw [hs, habs.sig]))
    · exact handleMatch_other cfg h hs cache now
  | sweep now =>
    refine sweepDeadlines_early cfg now h fun att hatt => ?_
    have hnone : st.attempts.lookup reg.key = none := Option.map_eq_none_iff.mp habs.core
    simp [hnone] at hatt

/-- An open attempt is closed by its first closing input and kept by the others. -/
theorem step_open (h : Apart reg st) (hop : Open cfg reg st) (i : Input) (hi : Unshared reg [i]) :
    Becomes reg st ((machine cfg).step st i).1 ((machine cfg).step st i).2 (ending cfg reg i) := by
  cases i with
  | register reg' =>
    obtain ⟨hkey, hsig⟩ := hi reg' (by simp [registrations, registration?])
    exact (handleRegister_untouched cfg (h.withAgg _) hkey hsig).counted _
  | send s =>
    simp only [ending]
    by_cases hs : s.key = reg.key
    · obtain ⟨hclose, hkeep⟩ :=
        handleSend_open cfg { st with agg := st.agg.recordSend s } s hs.symm hop.core
      by_cases herr : s.outcome.error.isSome
      · rw [if_pos ⟨hs, herr⟩]
        exact (Ended.of_closes (h.withAgg _) (hclose herr)).counted
      · rw [if_neg fun hboth => herr hboth.2]
        exact (Untouched.of_quiet (h.withAgg _) (hkeep herr)).counted _
    · rw [if_neg fun hboth => hs hboth.1]
      exact (handleSend_other cfg (h.withAgg _) hs).counted _
  | matched m cache now =>
    simp only [ending]
    by_cases hs : m.signature = reg.signature
    · rw [if_pos hs]
      have hsig : st.sigToKey.lookup m.signature = some reg.key := by rw [hs, hop.sig]
      exact (Ended.of_closes h (handleMatch_open cfg st m cache now hsig hop.core)).counted
    · rw [if_neg hs]
      exact (handleMatch_other cfg h hs cache now).counted st.agg
  | sweep now =>
    simp only [ending]
    by_cases hdue : reg.triggerObservedAt + cfg.deadline ≤ now
    · rw [if_pos hdue]
      exact sweepDeadlines_due cfg now h hop hdue
    · rw [if_neg hdue]
      refine sweepDeadlines_early cfg now h fun att hatt => ?_
      have hcore : some att.core = some (openCore cfg reg) := by
        rw [← hop.core, State.coreOf, hatt]
        rfl
      have hdead : att.deadlineAt = reg.triggerObservedAt + cfg.deadline :=
        congrArg Prod.snd (Option.some.inj hcore)
      rw [hdead]
      exact Nat.lt_of_not_le hdue

/-! ## Whole runs -/

theorem Unshared.append_iff (is js : List Input) :
    Unshared reg (is ++ js) ↔ Unshared reg is ∧ Unshared reg js := by
  unfold Unshared registrations
  rw [List.filterMap_append, List.forall_mem_append]

theorem Unshared.cons_iff {i : Input} {is : List Input} :
    Unshared reg (i :: is) ↔ Unshared reg [i] ∧ Unshared reg is :=
  Unshared.append_iff [i] is

theorem run_absent (cfg : RecorderConfig) (is : List Input) (h : Apart reg st)
    (habs : Absent reg st) (his : Unshared reg is) :
    Untouched reg st ((machine cfg).run st is).1 ((machine cfg).run st is).2 := by
  induction is generalizing st with
  | nil => exact Untouched.refl h
  | cons i is ih =>
    obtain ⟨hi, hrest⟩ := Unshared.cons_iff.mp his
    have hstep := step_absent cfg h habs i hi
    exact hstep.trans (ih hstep.apart (hstep.absent habs) hrest)

theorem run_open (is : List Input) (h : Apart reg st) (hop : Open cfg reg st)
    (his : Unshared reg is) :
    Becomes reg st ((machine cfg).run st is).1 ((machine cfg).run st is).2
      (is.findSome? (ending cfg reg)) := by
  induction is generalizing st with
  | nil => exact Untouched.refl h
  | cons i is ih =>
    obtain ⟨hi, hrest⟩ := Unshared.cons_iff.mp his
    have hstep := step_open h hop i hi
    rw [List.findSome?_cons]
    cases hend : ending cfg reg i with
    | none =>
      rw [hend] at hstep
      have htail := ih hstep.apart (hstep.open_iff.mpr hop) hrest
      cases hrun : is.findSome? (ending cfg reg) with
      | none =>
        rw [hrun] at htail
        exact hstep.trans htail
      | some o =>
        rw [hrun] at htail
        exact hstep.then_ended htail
    | some o =>
      rw [hend] at hstep
      exact hstep.then_untouched (run_absent cfg is hstep.apart hstep.absent hrest)

theorem flush_open (h : Apart reg st) (hop : Open cfg reg st) :
    Ended reg .unknownPending (flush cfg st).1 (flush cfg st).2 := by
  refine concludePending_ended _ h hop (AList.keys_nodup _) ?_
  obtain ⟨att, hatt, -⟩ := Option.map_eq_some_iff.mp hop.core
  exact AList.mem_keys.mp (AList.lookup_isSome.mp (by simp [hatt]))

theorem flush_absent (cfg : RecorderConfig) (h : Apart reg st) (habs : Absent reg st) :
    Untouched reg st (flush cfg st).1 (flush cfg st).2 := by
  refine concludePending_untouched _ h fun hmem => ?_
  have hsome := AList.lookup_isSome.mpr (AList.mem_keys.mpr hmem)
  rw [Option.map_eq_none_iff.mp habs.core] at hsome
  cases hsome

/-- An open attempt is closed by the rest of the run or by its flush. -/
theorem closed_after (after : List Input) (h : Apart reg st) (hop : Open cfg reg st)
    (hafter : Unshared reg after) :
    Ended reg (closedAs cfg reg after) (flush cfg ((machine cfg).run st after).1).1
      (((machine cfg).run st after).2 ++ (flush cfg ((machine cfg).run st after).1).2) := by
  have hrun := run_open after h hop hafter
  unfold closedAs
  cases hfirst : after.findSome? (ending cfg reg) with
  | none =>
    rw [hfirst] at hrun
    exact hrun.then_ended (flush_open hrun.apart (hrun.open_iff.mpr hop))
  | some o =>
    rw [hfirst] at hrun
    exact hrun.then_untouched (flush_absent cfg hrun.apart hrun.absent)

/-- In any run an attempt whose key and signature are its own leaves one row, with the
outcome of the first input that closes it. -/
theorem row_of_attempt (cfg : RecorderConfig) (reg : RegisterEvent) {before after : List Input}
    (hown : Unshared reg (before ++ after)) :
    ∃ row, rowsOf reg.key (runLoop cfg (before ++ .register reg :: after)).2 = [row] ∧
      row.txSignature = reg.signature ∧ row.finalOutcome = closedAs cfg reg after := by
  obtain ⟨hbefore, hafter⟩ := (Unshared.append_iff before after).mp hown
  have hinit : Apart reg {} :=
    ⟨fun _ _ _ hc => (by cases hc), fun _ _ _ _ hc => (by cases hc), fun _ hs => (by cases hs)⟩
  have hpre := run_absent cfg before hinit ⟨rfl, rfl⟩ hbefore
  obtain ⟨hop, hapart⟩ := handleRegister_open cfg
    (hpre.apart.withAgg (((machine cfg).run {} before).1.agg.recordRegister reg))
  obtain ⟨row, hrow, hsig, hout⟩ := (closed_after after hapart hop hafter).row
  refine ⟨row, ?_, hsig, hout⟩
  unfold runLoop
  dsimp only
  rw [EventMachine.run_append_snd, EventMachine.run_append_fst, EventMachine.run_cons_snd,
    EventMachine.run_cons_fst, List.append_assoc, rowsOf_append, hpre.rows, List.nil_append,
    List.append_assoc, rowsOf_append]
  exact hrow

/-! ## When the reply decides -/

def Answers (reg : RegisterEvent) : Input → Prop
  | .send s => s.key = reg.key
  | _ => False

def Matches (reg : RegisterEvent) : Input → Prop
  | .matched m _ _ => m.signature = reg.signature
  | _ => False

/-- A sweep at or past the deadline. -/
def Expires (cfg : RecorderConfig) (reg : RegisterEvent) : Input → Prop
  | .sweep now => reg.triggerObservedAt + cfg.deadline ≤ now
  | _ => False

/-- A reply of the attempt is served before its match and before its deadline is swept. -/
def AnsweredWhileOpen (cfg : RecorderConfig) (reg : RegisterEvent) (after : List Input) : Prop :=
  SomeSplit (fun before i => Answers reg i ∧ ∀ j ∈ before, ¬Matches reg j ∧ ¬Expires cfg reg j)
    after

/-- A match of the attempt is served before its deadline is swept. -/
def MatchedInTime (cfg : RecorderConfig) (reg : RegisterEvent) (after : List Input) : Prop :=
  SomeSplit (fun before i => Matches reg i ∧ ∀ j ∈ before, ¬Expires cfg reg j) after

instance (reg : RegisterEvent) : DecidablePred (Answers reg)
  | .send s => inferInstanceAs (Decidable (s.key = reg.key))
  | .register _ | .matched .. | .sweep _ => inferInstanceAs (Decidable False)

instance (reg : RegisterEvent) : DecidablePred (Matches reg)
  | .matched m _ _ => inferInstanceAs (Decidable (m.signature = reg.signature))
  | .register _ | .send _ | .sweep _ => inferInstanceAs (Decidable False)

instance (cfg : RecorderConfig) (reg : RegisterEvent) : DecidablePred (Expires cfg reg)
  | .sweep now => inferInstanceAs (Decidable (reg.triggerObservedAt + cfg.deadline ≤ now))
  | .register _ | .send _ | .matched .. => inferInstanceAs (Decidable False)

instance (cfg : RecorderConfig) (reg : RegisterEvent) (after : List Input) :
    Decidable (AnsweredWhileOpen cfg reg after) := SomeSplit.decidable

instance (cfg : RecorderConfig) (reg : RegisterEvent) (after : List Input) :
    Decidable (MatchedInTime cfg reg after) := SomeSplit.decidable

theorem ending_of_matches {i : Input} (h : Matches reg i) : ending cfg reg i = some .landed := by
  cases i with
  | matched m cache now => exact if_pos h
  | register _ => cases h
  | send _ => cases h
  | sweep _ => cases h

theorem ending_of_expires {i : Input} (h : Expires cfg reg i) :
    ending cfg reg i = some .unknownPending := by
  cases i with
  | sweep now => exact if_pos h
  | register _ => cases h
  | send _ => cases h
  | matched _ _ _ => cases h

/-- What is neither a match, an expiry nor a reply leaves the attempt open. -/
theorem ending_cases {i : Input} {o : FinalOutcome} (h : ending cfg reg i = some o) :
    (o = .landed ∧ Matches reg i) ∨ (o = .unknownPending ∧ Expires cfg reg i) ∨
      (o = .sendError ∧ ∃ s, i = .send s ∧ s.key = reg.key ∧ s.outcome.error.isSome) := by
  cases i with
  | register _ => cases h
  | send s =>
    obtain ⟨⟨hkey, herr⟩, ho⟩ : (s.key = reg.key ∧ s.outcome.error.isSome) ∧ .sendError = o := by
      simpa [ending] using h
    exact Or.inr (Or.inr ⟨ho.symm, s, rfl, hkey, herr⟩)
  | matched m cache now =>
    obtain ⟨hsig, ho⟩ : m.signature = reg.signature ∧ .landed = o := by simpa [ending] using h
    exact Or.inl ⟨ho.symm, hsig⟩
  | sweep now =>
    obtain ⟨hdue, ho⟩ : reg.triggerObservedAt + cfg.deadline ≤ now ∧ .unknownPending = o := by
      simpa [ending] using h
    exact Or.inr (Or.inl ⟨ho.symm, hdue⟩)

/-- Where all replies of the attempt are errors, or none is, it ends as a send error
exactly when they are and one is served while it is open. -/
theorem closedAs_sendError_iff {after : List Input} {e : Bool}
    (hreply : ∀ s, .send s ∈ after → s.key = reg.key → s.outcome.error.isSome = e) :
    closedAs cfg reg after = .sendError ↔ e = true ∧ AnsweredWhileOpen cfg reg after := by
  constructor
  · intro h
    have hfirst : after.findSome? (ending cfg reg) = some .sendError := by
      unfold closedAs at h
      cases hf : after.findSome? (ending cfg reg) with
      | none => simp [hf] at h
      | some o => simpa [hf] using h
    obtain ⟨before, i, rest, rfl, hi, hbefore⟩ := List.findSome?_eq_some_iff.mp hfirst
    rcases ending_cases hi with ⟨ho, -⟩ | ⟨ho, -⟩ | ⟨-, s, rfl, hkey, herr⟩
    · cases ho
    · cases ho
    · refine ⟨(hreply s (by simp) hkey).symm.trans herr, before, _, rest, rfl, hkey, ?_⟩
      intro j hj
      refine ⟨fun hm => ?_, fun hx => ?_⟩
      · simpa [ending_of_matches hm] using hbefore j hj
      · simpa [ending_of_expires hx] using hbefore j hj
  · rintro ⟨rfl, hsome⟩
    obtain ⟨before, i, rest, rfl, ⟨hans, hopen⟩, hfirst⟩ := hsome.first
    cases i with
    | send s =>
      have herr := hreply s (by simp) hans
      -- no reply stands before the first one, so nothing before it closes the attempt
      have hnone : before.findSome? (ending cfg reg) = none := by
        refine List.findSome?_eq_none_iff.mpr fun j hj => ?_
        cases hend : ending cfg reg j with
        | none => rfl
        | some o =>
          rcases ending_cases hend with ⟨-, hm⟩ | ⟨-, hx⟩ | ⟨-, s', rfl, hkey, -⟩
          · exact absurd hm (hopen j hj).1
          · exact absurd hx (hopen j hj).2
          · obtain ⟨pre, post, rfl⟩ := List.append_of_mem hj
            exact absurd ⟨hkey, fun k hk => hopen k (by simp [hk])⟩ (hfirst pre _ post rfl)
      have hthis : ending cfg reg (.send s) = some .sendError := if_pos ⟨hans, herr⟩
      simp [closedAs, List.findSome?_append, hnone, hthis]
    | register _ => cases hans
    | matched _ _ _ => cases hans
    | sweep _ => cases hans

theorem closedAs_landed {after : List Input} (hm : MatchedInTime cfg reg after)
    (hne : closedAs cfg reg after ≠ .sendError) : closedAs cfg reg after = .landed := by
  obtain ⟨before, i, rest, rfl, hi, hopen⟩ := hm
  unfold closedAs at hne ⊢
  rw [List.findSome?_append, List.findSome?_cons, ending_of_matches hi] at hne ⊢
  cases hf : before.findSome? (ending cfg reg) with
  | none => rfl
  | some o =>
    rw [hf] at hne
    obtain ⟨j, hj, hend⟩ := List.exists_of_findSome?_eq_some hf
    rcases ending_cases hend with ⟨ho, -⟩ | ⟨-, hx⟩ | ⟨ho, -⟩
    · exact ho
    · exact absurd hx (hopen j hj)
    · exact absurd ho hne

end SolanaBench.TickTrigger.Recorder
