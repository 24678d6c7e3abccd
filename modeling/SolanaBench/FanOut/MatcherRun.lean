import SolanaBench.FanOut.Matcher

/-! Whole runs of the matcher. The handlers differ in which open attempts they close and
with what outcome; one relation says the rest. -/
namespace SolanaBench.FanOut.Matcher

open Nonce

/-- A message on one of the three channels, or the deadline sweep. The nonce sweep
touches neither map. -/
inductive Input
  | register (reg : RegisterEvent)
  | send (ev : SendEvent)
  | matched (ev : MatchEvent) (cache : SlotHashCache) (now : Instant)
  | deadlineSweep (now : Instant)

def step (cfg : MatcherConfig) (st : State) : Input → State × List Output
  | .register reg => (registerAttempt st reg, [])
  | .send ev => handleSendEvent cfg st ev
  | .matched ev cache now => handleMatchEvent cfg st ev cache now
  | .deadlineSweep now => sweepDeadlines cfg st now

def machine (cfg : MatcherConfig) : EventMachine State Input Output where
  step := step cfg

/-- The loop on these inputs, and the flush after it. -/
def runLoop (cfg : MatcherConfig) (is : List Input) (now : Instant) : State × List Output :=
  let r := (machine cfg).run {} is
  let f := flush cfg r.1 now
  (f.1, r.2 ++ f.2)

def registration? : Input → Option RegisterEvent
  | .register reg => some reg
  | _ => none

def registrations (is : List Input) : List RegisterEvent := is.filterMap registration?

theorem registration?_eq_some {i : Input} {reg : RegisterEvent} :
    registration? i = some reg ↔ i = .register reg := by
  cases i <;> simp [registration?]

@[simp] theorem registrations_nil : registrations [] = [] := rfl

theorem registrations_append (is js : List Input) :
    registrations (is ++ js) = registrations is ++ registrations js := List.filterMap_append

theorem registrations_snoc (is : List Input) (i : Input) :
    registrations (is ++ [i]) = registrations is ++ (registration? i).toList := by
  rw [registrations_append]
  cases h : registration? i <;> simp [registrations, h]

theorem registrations_quiet {is : List Input} {i : Input} (hi : registration? i = none) :
    registrations (is ++ [i]) = registrations is := by simp [registrations_snoc, hi]

/-- A registration sends nothing. -/
theorem append_step_register (cfg : MatcherConfig) (st : State) (reg : RegisterEvent)
    (os : List Output) : os ++ ((machine cfg).step st (.register reg)).2 = os := List.append_nil os

/-- Under pairwise distinct signatures a new registration brings its own. -/
theorem fresh_signature {is : List Input} {i : Input}
    (h : ((registrations (is ++ [i])).map RegisterEvent.signature).Nodup) :
    ∀ reg ∈ registration? i, ∀ r ∈ registrations is, r.signature ≠ reg.signature := by
  intro reg hreg r hr
  rw [registrations_snoc, hreg, List.map_append, List.nodup_append] at h
  exact h.2.2 _ (List.mem_map_of_mem hr) _ (by simp)

/-! ## Rows -/

def final? : Event → Option FinalRecord
  | .final r => some r
  | _ => none

def finals (os : List Output) : List FinalRecord := (Effect.sent os).filterMap final?

def FinalRecord.key (r : FinalRecord) : Key := (r.triggerId, r.senderId)

def rowsOf (key : Key) (os : List Output) : List FinalRecord :=
  (finals os).filter fun row => row.key = key

/-- What a row says about its attempt. -/
def FinalRecord.verdict (r : FinalRecord) : Signature × TentativeOutcome :=
  (r.txSignature, r.tentativeOutcome)

@[simp] theorem finals_nil : finals [] = [] := rfl

@[simp] theorem finals_append (os ps : List Output) : finals (os ++ ps) = finals os ++ finals ps := by
  simp [finals, List.filterMap_append]

@[simp] theorem finals_final (r : FinalRecord) (os : List Output) :
    finals (.send (.final r) :: os) = r :: finals os := rfl

@[simp] theorem finals_finality (e : FinalityQueueEntry) (os : List Output) :
    finals (.send (.finality e) :: os) = finals os := rfl

@[simp] theorem rowsOf_nil (key : Key) : rowsOf key [] = [] := rfl

@[simp] theorem rowsOf_append (key : Key) (os ps : List Output) :
    rowsOf key (os ++ ps) = rowsOf key os ++ rowsOf key ps := by
  simp [rowsOf]

@[simp] theorem finals_emit (cfg : MatcherConfig) (reg : RegisterEvent) (record : FinalRecord)
    (now : Instant) : finals (emit cfg reg record now) = [record] := by
  unfold emit
  split <;> rfl

@[simp] theorem finals_nonceHook (cfg : MatcherConfig) (st : State) (winner : Key)
    (ev : MatchEvent) (cache : SlotHashCache) : finals (nonceHook cfg st winner ev cache) = [] := by
  unfold nonceHook
  split
  · split
    · rfl
    · split <;> rfl
  · rfl

/-- Both builders copy the key and the signature from the registration. -/
theorem buildRecordFromAttempt_spec (cfg : MatcherConfig) (rec : AttemptRecord) (ev : SendEvent)
    (o : TentativeOutcome) : (buildRecordFromAttempt cfg rec ev o).key = rec.reg.key ∧
      (buildRecordFromAttempt cfg rec ev o).verdict = (rec.reg.signature, o) := ⟨rfl, rfl⟩

theorem buildRecordFromRecord_spec (cfg : MatcherConfig) (rec : AttemptRecord)
    (o : TentativeOutcome) (at? : Option Instant) :
    (buildRecordFromRecord cfg rec o at?).key = rec.reg.key ∧
      (buildRecordFromRecord cfg rec o at?).verdict = (rec.reg.signature, o) := by
  unfold buildRecordFromRecord
  cases rec.state <;> exact ⟨rfl, rfl⟩

/-! ## What one handler does -/

/-- The registration of an open attempt; replies fill the other fields. -/
def State.regOf (st : State) (key : Key) : Option RegisterEvent :=
  (st.attempts.lookup key).map AttemptRecord.reg

def Keyed (st : State) : Prop := ∀ key reg, st.regOf key = some reg → reg.key = key

/-- The open attempts that `out` gives an outcome leave the map with one row each, and
nothing else is opened, closed or written. -/
structure Closes (out : Key → Option TentativeOutcome) (st st' : State) (os : List Output) :
    Prop where
  opened : ∀ key, st'.regOf key = if (out key).isSome then none else st.regOf key
  rows : ∀ key, (rowsOf key os).map FinalRecord.verdict =
    ((st.regOf key).bind fun reg => (out key).map fun o => (reg.signature, o)).toList

namespace Closes

variable {out out' : Key → Option TentativeOutcome} {st st' st'' : State} {os ps : List Output}

theorem refl (st : State) : Closes (fun _ => none) st st [] :=
  ⟨fun _ => rfl, fun key => by cases st.regOf key <;> rfl⟩

theorem trans (h : Closes out st st' os) (h' : Closes out' st' st'' ps) :
    Closes (fun key => (out key).or (out' key)) st st'' (os ++ ps) := by
  refine ⟨fun key => ?_, fun key => ?_⟩
  · rw [h'.opened, h.opened]
    cases out key <;> cases out' key <;> rfl
  · rw [rowsOf_append, List.map_append, h.rows, h'.rows, h.opened]
    cases out key with
    | none => cases st.regOf key <;> simp
    | some o => cases st.regOf key <;> simp

theorem keyed (h : Closes out st st' os) (hk : Keyed st) : Keyed st' := by
  intro key reg hreg
  rw [h.opened] at hreg
  split_ifs at hreg
  exact hk key reg hreg

/-- Only what it says of open attempts matters. -/
theorem congr (h : Closes out st st' os)
    (hout : ∀ key reg, st.regOf key = some reg → out key = out' key) : Closes out' st st' os := by
  refine ⟨fun key => ?_, fun key => ?_⟩
  · rw [h.opened]
    cases hreg : st.regOf key with
    | none => simp
    | some reg => rw [hout key reg hreg]
  · rw [h.rows]
    cases hreg : st.regOf key with
    | none => rfl
    | some reg => rw [hout key reg hreg]

theorem rowsOf_eq_nil (h : Closes out st st' os) {key : Key} (hopen : st.regOf key = none) :
    rowsOf key os = [] := by
  have hrows := h.rows key
  rw [hopen] at hrows
  simpa using hrows

end Closes

/-- Moreover their signatures leave the index, and no others. -/
structure Drops (out : Key → Option TentativeOutcome) (st st' : State) (os : List Output) : Prop
    extends Closes out st st' os where
  gone : ∀ key reg, st.regOf key = some reg → (out key).isSome →
    st'.sigToKey.lookup reg.signature = none
  kept : ∀ sig, (∀ key reg, st.regOf key = some reg → (out key).isSome → reg.signature ≠ sig) →
    st'.sigToKey.lookup sig = st.sigToKey.lookup sig

namespace Drops

variable {out out' : Key → Option TentativeOutcome} {st st' st'' : State} {os ps : List Output}

theorem shrinks (h : Drops out st st' os) {sig : Signature} {key : Key}
    (hsig : st'.sigToKey.lookup sig = some key) : st.sigToKey.lookup sig = some key := by
  by_cases hclosed : ∃ k reg, st.regOf k = some reg ∧ (out k).isSome ∧ reg.signature = sig
  · obtain ⟨k, reg, hreg, hout, rfl⟩ := hclosed
    rw [h.gone k reg hreg hout] at hsig
    cases hsig
  · rw [← h.kept sig fun k reg hreg hout heq => hclosed ⟨k, reg, hreg, hout, heq⟩]
    exact hsig

theorem refl (st : State) : Drops (fun _ => none) st st [] :=
  ⟨Closes.refl st, fun _ _ _ hout => by simp at hout, fun _ _ => rfl⟩

theorem trans (h : Drops out st st' os) (h' : Drops out' st' st'' ps) :
    Drops (fun key => (out key).or (out' key)) st st'' (os ++ ps) := by
  refine ⟨h.toCloses.trans h'.toCloses, fun key reg hreg hout => ?_, fun sig hsig => ?_⟩
  · cases hkey : out key with
    | some o =>
      have hgone := h.gone key reg hreg (by simp [hkey])
      by_contra hne
      obtain ⟨k, hk⟩ := Option.ne_none_iff_exists'.mp hne
      rw [h'.shrinks hk] at hgone
      cases hgone
    | none =>
      have hreg' : st'.regOf key = some reg := by simp [h.opened, hkey, hreg]
      exact h'.gone key reg hreg' (by simpa [hkey] using hout)
  · rw [h'.kept sig ?_, h.kept sig fun key reg hreg hout => hsig key reg hreg (by simp [hout])]
    intro key reg hreg hout
    rw [h.opened] at hreg
    split_ifs at hreg
    exact hsig key reg hreg (by simp [hout])

theorem congr (h : Drops out st st' os)
    (hout : ∀ key reg, st.regOf key = some reg → out key = out' key) : Drops out' st st' os :=
  ⟨h.toCloses.congr hout,
    fun key reg hreg ho => h.gone key reg hreg (by
      rw [hout key reg hreg]
      exact ho),
    fun sig hsig => h.kept sig fun key reg hreg ho => hsig key reg hreg (by
      rw [← hout key reg hreg]
      exact ho)⟩

end Drops

variable {cfg : MatcherConfig} {st : State}

theorem regOf_erase (st : State) (key k : Key) (sigs) (restored) :
    State.regOf ⟨st.attempts.erase key, sigs, restored⟩ k =
      if k = key then none else st.regOf k := by
  unfold State.regOf
  by_cases h : k = key
  · subst h
    simp
  · simp [AList.lookup_erase_ne h, h]

theorem regOf_insert (st : State) (key k : Key) (rec : AttemptRecord) (sigs) (restored) :
    State.regOf ⟨st.attempts.insert key rec, sigs, restored⟩ k =
      if k = key then some rec.reg else st.regOf k := by
  unfold State.regOf
  by_cases h : k = key
  · subst h
    simp
  · simp [AList.lookup_insert_ne h, h]

theorem regOf_registerAttempt (st : State) (reg : RegisterEvent) (key : Key) :
    (registerAttempt st reg).regOf key = if key = reg.key then some reg else st.regOf key :=
  regOf_insert st reg.key key _ _ _

theorem ne_of_regOf {key k : Key} {reg : RegisterEvent} (h : st.attempts.lookup key = none)
    (hreg : st.regOf k = some reg) : k ≠ key := by
  rintro rfl
  simp [State.regOf, h] at hreg

/-- One attempt closed with one row. -/
theorem drops_one {key : Key} {reg : RegisterEvent} {o : TentativeOutcome} {row : FinalRecord}
    {os : List Output} (hreg : st.regOf key = some reg) (hrows : finals os = [row])
    (hkey : row.key = key) (hv : row.verdict = (reg.signature, o)) :
    Drops (fun k => if k = key then some o else none) st
      ⟨st.attempts.erase key, st.sigToKey.erase reg.signature, st.restoredTriggers⟩ os := by
  refine ⟨⟨fun k => ?_, fun k => ?_⟩, fun k r hr hout => ?_, fun sig hsig => ?_⟩
  · rw [regOf_erase]
    by_cases hk : k = key <;> simp [hk]
  · unfold rowsOf
    rw [hrows, List.filter_singleton, hkey]
    by_cases hk : k = key
    · subst hk
      simp [hreg, hv]
    · simp [hk, Ne.symm hk]
  · by_cases hk : k = key
    · subst hk
      rw [hreg] at hr
      rw [← Option.some.inj hr]
      exact AList.lookup_erase _ _
    · simp [hk] at hout
  · exact AList.lookup_erase_ne (hsig key reg hreg (by simp)).symm

/-- An error reply closes its attempt, and any other reply none. -/
def sendOut (ev : SendEvent) (key : Key) : Option TentativeOutcome :=
  if key = ev.key ∧ ev.error.isSome then some .sendError else none

theorem drops_handleSendEvent (hk : Keyed st) (cfg : MatcherConfig) (ev : SendEvent) :
    Drops (sendOut ev) st (handleSendEvent cfg st ev).1 (handleSendEvent cfg st ev).2 := by
  unfold handleSendEvent
  cases hatt : st.attempts.lookup ev.key with
  | none =>
    refine (Drops.refl st).congr fun key reg hreg => ?_
    simp [sendOut, ne_of_regOf hatt hreg]
  | some rec =>
    have hreg : st.regOf ev.key = some rec.reg := by simp [State.regOf, hatt]
    dsimp only
    cases herr : ev.error with
    | some err =>
      obtain ⟨hkey, hv⟩ := buildRecordFromAttempt_spec cfg { rec with
        state := .sendFailed (nsSince cfg ev.sendAt) (ev.sendAckAt.map (nsSince cfg)) err
          ev.signature } ev .sendError
      have hone := drops_one hreg (finals_final _ []) (hkey.trans (hk _ _ hreg)) hv
      refine hone.congr fun key reg _ => ?_
      by_cases hkk : key = ev.key <;> simp [sendOut, hkk, herr]
    | none =>
      refine ⟨⟨fun key => ?_, fun key => ?_⟩, fun key reg _ hout => ?_, fun _ _ => rfl⟩
      · rw [regOf_insert]
        by_cases hkk : key = ev.key
        · subst hkk
          simp [sendOut, herr, hreg]
        · simp [sendOut, herr, hkk]
      · cases st.regOf key <;> simp [sendOut, herr]
      · simp [sendOut, herr] at hout

theorem regOf_foldl_erase (keys : List Key) (st : State) (k : Key) :
    State.regOf { st with attempts := keys.foldl (fun m key => m.erase key) st.attempts } k =
      if k ∈ keys then none else st.regOf k := by
  induction keys generalizing st with
  | nil => rfl
  | cons key keys ih =>
    have h := ih { st with attempts := st.attempts.erase key }
    rw [regOf_erase] at h
    rw [List.foldl_cons]
    refine h.trans ?_
    by_cases hk : k = key <;> simp [hk]

theorem rowsOf_resolveSibling (hk : Keyed st) (cfg : MatcherConfig) (winner : Key)
    (ev : MatchEvent) (now : Instant) (key k : Key) :
    (rowsOf k (resolveSibling cfg st winner ev now key)).map FinalRecord.verdict =
      if k = key then ((st.regOf k).map fun reg =>
        (reg.signature, if k = winner then .landedTentative else .dedupedTentative)).toList
      else [] := by
  unfold resolveSibling
  cases hatt : st.attempts.lookup key with
  | none =>
    by_cases hkk : k = key
    · subst hkk
      simp [State.regOf, hatt]
    · simp [hkk]
  | some rec =>
    have hreg : st.regOf key = some rec.reg := by simp [State.regOf, hatt]
    obtain ⟨hkey, hv⟩ := buildRecordFromRecord_spec cfg { rec with matchInfo := some ev }
      (if key = winner then .landedTentative else .dedupedTentative) (some ev.observedAt)
    have hkey' : _ = key := hkey.trans (hk _ _ hreg)
    dsimp only at hkey' hv ⊢
    unfold rowsOf
    rw [finals_emit, List.filter_singleton, hkey']
    by_cases hkk : k = key
    · subst hkk
      simp [hreg, hv]
    · simp [hkk, Ne.symm hkk]

theorem rowsOf_flatMap_resolve (hk : Keyed st) (cfg : MatcherConfig) (winner : Key)
    (ev : MatchEvent) (now : Instant) {keys : List Key} (hnodup : keys.Nodup) (k : Key) :
    (rowsOf k (keys.flatMap (resolveSibling cfg st winner ev now))).map FinalRecord.verdict =
      if k ∈ keys then ((st.regOf k).map fun reg =>
        (reg.signature, if k = winner then .landedTentative else .dedupedTentative)).toList
      else [] := by
  induction keys with
  | nil => rfl
  | cons key keys ih =>
    obtain ⟨hnew, hnodup⟩ := List.nodup_cons.mp hnodup
    rw [List.flatMap_cons, rowsOf_append, List.map_append, ih hnodup,
      rowsOf_resolveSibling hk cfg winner ev now key k]
    by_cases hkk : k = key
    · subst hkk
      simp [hnew]
    · simp [hkk]

theorem regOf_isSome {key : Key} : (st.regOf key).isSome ↔ key ∈ st.attempts.keys := by
  unfold State.regOf
  rw [Option.isSome_map, AList.lookup_isSome]
  exact AList.mem_keys

theorem mem_siblingKeys {key : Key} {t : TriggerId} :
    key ∈ siblingKeys st t ↔ (st.regOf key).isSome ∧ key.1 = t := by
  simp [siblingKeys, regOf_isSome]

/-- A match of a known signature closes all attempts of its trigger. -/
def matchOut (st : State) (ev : MatchEvent) (key : Key) : Option TentativeOutcome :=
  (st.sigToKey.lookup ev.signature).bind fun winner =>
    if key.1 = winner.1 then
      some (if key = winner then .landedTentative else .dedupedTentative)
    else none

theorem closes_handleMatchEvent (hk : Keyed st) (cfg : MatcherConfig) (ev : MatchEvent)
    (cache : SlotHashCache) (now : Instant) :
    Closes (matchOut st ev) st (handleMatchEvent cfg st ev cache now).1
      (handleMatchEvent cfg st ev cache now).2 := by
  unfold handleMatchEvent
  cases hsig : st.sigToKey.lookup ev.signature with
  | none => exact (Closes.refl st).congr fun key reg _ => by simp [matchOut, hsig]
  | some winner =>
    dsimp only
    have hmem (key : Key) : key ∈ siblingKeys st winner.1 ↔
        (st.regOf key).isSome ∧ key.1 = winner.1 := mem_siblingKeys
    refine ⟨fun key => ?_, fun key => ?_⟩
    · rw [regOf_foldl_erase]
      cases hreg : st.regOf key with
      | none => simp
      | some reg => simp [hmem, hreg, matchOut, hsig]
    · have hnodup : (siblingKeys st winner.1).Nodup := st.attempts.keys_nodup.filter _
      have hhook : rowsOf key (nonceHook cfg st winner ev cache) = [] := by simp [rowsOf]
      rw [rowsOf_append, hhook, List.nil_append, rowsOf_flatMap_resolve hk cfg winner ev now hnodup]
      cases hreg : st.regOf key with
      | none => simp
      | some reg =>
        by_cases ht : key.1 = winner.1 <;> simp [hmem, hreg, matchOut, hsig, ht]

theorem sigToKey_handleMatchEvent (cfg : MatcherConfig) (st : State) (ev : MatchEvent)
    (cache : SlotHashCache) (now : Instant) :
    (handleMatchEvent cfg st ev cache now).1.sigToKey = st.sigToKey := by
  unfold handleMatchEvent
  cases st.sigToKey.lookup ev.signature <;> rfl

theorem drops_closePending (hk : Keyed st) (cfg : MatcherConfig) (now : Instant) (key : Key) :
    Drops (fun k => if k = key then some .unknownPending else none) st
      (closePending cfg now st key).1 (closePending cfg now st key).2 := by
  unfold closePending
  cases hatt : st.attempts.lookup key with
  | none =>
    refine (Drops.refl st).congr fun k reg hreg => ?_
    simp [ne_of_regOf hatt hreg]
  | some rec =>
    have hreg : st.regOf key = some rec.reg := by simp [State.regOf, hatt]
    obtain ⟨hkey, hv⟩ := buildRecordFromRecord_spec cfg rec .unknownPending none
    exact drops_one hreg (finals_emit cfg rec.reg _ now) (hkey.trans (hk _ _ hreg)) hv

theorem drops_closing (hk : Keyed st) (cfg : MatcherConfig) (now : Instant) (keys : List Key) :
    Drops (fun k => if k ∈ keys then some .unknownPending else none) st
      ((closingMachine cfg now).run st keys).1 ((closingMachine cfg now).run st keys).2 := by
  induction keys generalizing st with
  | nil => exact (Drops.refl st).congr fun k reg _ => by simp
  | cons key keys ih =>
    have hone := drops_closePending hk cfg now key
    refine (hone.trans (ih (hone.toCloses.keyed hk))).congr fun k reg _ => ?_
    by_cases hkk : k = key <;> by_cases hmem : k ∈ keys <;> simp [hkk, hmem]

/-- The attempt's deadline has passed at a sweep. -/
def expired (cfg : MatcherConfig) (now : Instant) (reg : RegisterEvent) : Bool :=
  decide (Instant.saturatingDurationSince now reg.triggerObservedAt ≥ cfg.deadline)

def sweepOut (cfg : MatcherConfig) (st : State) (now : Instant) (key : Key) :
    Option TentativeOutcome :=
  (st.regOf key).bind fun reg => if expired cfg now reg then some .unknownPending else none

/-- The keys that a deadline sweep collects are those of the expired attempts. -/
theorem mem_expired {now : Instant} {key : Key} :
    key ∈ (st.attempts.entries.filter fun e =>
        Instant.saturatingDurationSince now e.2.reg.triggerObservedAt ≥ cfg.deadline).map
          Sigma.fst ↔
      ∃ reg, st.regOf key = some reg ∧ expired cfg now reg := by
  unfold State.regOf
  constructor
  · intro h
    obtain ⟨e, he, rfl⟩ := List.mem_map.mp h
    obtain ⟨hmem, hexp⟩ := List.mem_filter.mp he
    exact ⟨e.2.reg, by rw [AList.mem_lookup_iff.mpr hmem]; rfl, hexp⟩
  · rintro ⟨reg, hreg, hexp⟩
    obtain ⟨rec, hrec, rfl⟩ := Option.map_eq_some_iff.mp hreg
    exact List.mem_map.mpr ⟨⟨key, rec⟩,
      List.mem_filter.mpr ⟨AList.mem_lookup_iff.mp hrec, hexp⟩, rfl⟩

theorem drops_sweepDeadlines (hk : Keyed st) (cfg : MatcherConfig) (now : Instant) :
    Drops (sweepOut cfg st now) st (sweepDeadlines cfg st now).1
      (sweepDeadlines cfg st now).2 := by
  refine (drops_closing hk cfg now _).congr fun key reg hreg => ?_
  unfold sweepOut
  rw [hreg]
  by_cases hexp : expired cfg now reg = true
  · rw [if_pos (mem_expired.mpr ⟨reg, hreg, hexp⟩)]
    simp [hexp]
  · have hnot : ¬∃ reg', st.regOf key = some reg' ∧ expired cfg now reg' = true := by
      rintro ⟨reg', hreg', hexp'⟩
      rw [hreg] at hreg'
      exact hexp (Option.some.inj hreg' ▸ hexp')
    rw [if_neg fun hmem => hnot (mem_expired.mp hmem)]
    simp [hexp]

/-- The flush closes everything. -/
theorem drops_flush (hk : Keyed st) (cfg : MatcherConfig) (now : Instant) :
    Drops (fun _ => some .unknownPending) st (flush cfg st now).1 (flush cfg st now).2 := by
  refine (drops_closing hk cfg now _).congr fun key reg hreg => ?_
  have hmem : key ∈ st.attempts.keys := regOf_isSome.mp (by simp [hreg])
  rw [if_pos hmem]

/-- What an input other than a registration closes. -/
def closing (cfg : MatcherConfig) (st : State) : Input → Key → Option TentativeOutcome
  | .register _ => fun _ => none
  | .send ev => sendOut ev
  | .matched ev _ _ => matchOut st ev
  | .deadlineSweep now => sweepOut cfg st now

theorem closes_step (hk : Keyed st) (cfg : MatcherConfig) {i : Input}
    (hi : registration? i = none) :
    Closes (closing cfg st i) st ((machine cfg).step st i).1 ((machine cfg).step st i).2 := by
  cases i with
  | register reg => cases hi
  | send ev => exact (drops_handleSendEvent hk cfg ev).toCloses
  | matched ev cache now => exact closes_handleMatchEvent hk cfg ev cache now
  | deadlineSweep now => exact (drops_sweepDeadlines hk cfg now).toCloses

/-! ## What the maps hold -/

/-- An open attempt is of a registration and is indexed, and every signature in the index
is of a registration. -/
structure Tracks (regs : List RegisterEvent) (st : State) : Prop where
  opened : ∀ key reg, st.regOf key = some reg →
    reg ∈ regs ∧ reg.key = key ∧ st.sigToKey.lookup reg.signature = some key
  known : ∀ sig key, st.sigToKey.lookup sig = some key →
    ∃ reg ∈ regs, reg.signature = sig ∧ reg.key = key

namespace Tracks

variable {regs : List RegisterEvent} {is : List Input} {st' : State} {os : List Output}
  {out : Key → Option TentativeOutcome}

theorem keyed (h : Tracks regs st) : Keyed st := fun key reg hreg => (h.opened key reg hreg).2.1

theorem init : Tracks [] {} :=
  ⟨fun key reg hreg => by simp [State.regOf] at hreg, fun sig key hsig => by simp at hsig⟩

/-- A signature is open under one key only. -/
theorem key_eq (h : Tracks regs st) {key key' : Key} {reg reg' : RegisterEvent}
    (hreg : st.regOf key = some reg) (hreg' : st.regOf key' = some reg')
    (hsig : reg.signature = reg'.signature) : key = key' := by
  have hkey := (h.opened key reg hreg).2.2
  rw [hsig, (h.opened key' reg' hreg').2.2] at hkey
  exact (Option.some.inj hkey).symm

theorem drops (h : Tracks regs st) (hd : Drops out st st' os) : Tracks regs st' := by
  refine ⟨fun key reg hreg' => ?_, fun sig key hsig => h.known sig key (hd.shrinks hsig)⟩
  rw [hd.opened] at hreg'
  split_ifs at hreg' with hout
  obtain ⟨hmem, hkey, hsig⟩ := h.opened key reg hreg'
  refine ⟨hmem, hkey, ?_⟩
  rw [hd.kept reg.signature fun k r hr ho heq => ?_]
  · exact hsig
  · rw [h.key_eq hr hreg' heq] at ho
    exact hout ho

theorem matched (h : Tracks regs st) (cfg : MatcherConfig) (ev : MatchEvent)
    (cache : SlotHashCache) (now : Instant) :
    Tracks regs (handleMatchEvent cfg st ev cache now).1 := by
  have hc := closes_handleMatchEvent h.keyed cfg ev cache now
  have hsigs := sigToKey_handleMatchEvent cfg st ev cache now
  refine ⟨fun key reg hreg => ?_, fun sig key hsig => ?_⟩
  · rw [hc.opened] at hreg
    split_ifs at hreg
    rw [hsigs]
    exact h.opened key reg hreg
  · rw [hsigs] at hsig
    exact h.known sig key hsig

theorem register (h : Tracks regs st) {reg : RegisterEvent}
    (hnew : ∀ r ∈ regs, r.signature ≠ reg.signature) :
    Tracks (regs ++ [reg]) (registerAttempt st reg) := by
  refine ⟨fun key r hr => ?_, fun sig key hsig => ?_⟩
  · rw [regOf_registerAttempt] at hr
    show _ ∧ _ ∧ (st.sigToKey.insert reg.signature reg.key).lookup r.signature = some key
    split_ifs at hr with hkey
    · obtain rfl := Option.some.inj hr
      exact ⟨by simp, hkey.symm, by rw [AList.lookup_insert, hkey]⟩
    · obtain ⟨hold, hk, hs⟩ := h.opened key r hr
      exact ⟨List.mem_append_left _ hold, hk, by rw [AList.lookup_insert_ne (hnew r hold), hs]⟩
  · have hsig' : (st.sigToKey.insert reg.signature reg.key).lookup sig = some key := hsig
    by_cases hs : sig = reg.signature
    · rw [hs, AList.lookup_insert] at hsig'
      exact ⟨reg, by simp, hs.symm, Option.some.inj hsig'⟩
    · rw [AList.lookup_insert_ne hs] at hsig'
      obtain ⟨r, hr, hrest⟩ := h.known sig key hsig'
      exact ⟨r, List.mem_append_left _ hr, hrest⟩

/-- The step lemma. -/
theorem step (h : Tracks (registrations is) st) (cfg : MatcherConfig) (i : Input)
    (hnew : ∀ reg ∈ registration? i, ∀ r ∈ registrations is, r.signature ≠ reg.signature) :
    Tracks (registrations (is ++ [i])) ((machine cfg).step st i).1 := by
  cases i with
  | register reg =>
    rw [registrations_snoc]
    exact h.register (hnew reg rfl)
  | send ev =>
    rw [registrations_quiet rfl]
    exact h.drops (drops_handleSendEvent h.keyed cfg ev)
  | matched ev cache now =>
    rw [registrations_quiet rfl]
    exact h.matched cfg ev cache now
  | deadlineSweep now =>
    rw [registrations_quiet rfl]
    exact h.drops (drops_sweepDeadlines h.keyed cfg now)

/-- The run lemma. -/
theorem run (cfg : MatcherConfig) (is : List Input)
    (hsigs : ((registrations is).map RegisterEvent.signature).Nodup) :
    Tracks (registrations is) ((machine cfg).run {} is).1 := by
  induction is using List.reverseRecOn with
  | nil => exact init
  | append_singleton is i ih =>
    have hnew := fresh_signature hsigs
    rw [registrations_snoc, List.map_append] at hsigs
    rw [EventMachine.run_snoc_fst]
    exact (ih hsigs.of_append_left).step cfg i hnew

end Tracks

/-! One trigger observed at 0, clocks in seconds, no finality tracker and no nonces. -/

def plainConfig : MatcherConfig where
  deadline := 90
  runId := "run"
  anchor := 0
  finality := false
  nonceMode := false
  nonceRestoreAfter := 8
  sha := ⟨id, id⟩

def plainRegister (senderId : ℕ) (signature : Signature) : RegisterEvent where
  triggerId := 1
  senderId := senderId
  senderName := "helius"
  endpointUrl := "endpoint"
  protocol := "http"
  authTier := none
  tipAccountUsed := none
  tipLamports := 0
  priorityFeeMicrolamports := 5000
  computeUnitLimit := 200_000
  signature := signature
  txMessageHash := signature
  sendOrderInTrigger := 0
  triggerSlot := 7
  triggerTick := 1
  nonceAccountId := 0
  nonceBlockhashUsed := 0
  preparedAt := 0
  poolReadyAt := 0
  triggerObservedAt := 0

def plainError (senderId : ℕ) (signature : Signature) : SendEvent where
  triggerId := 1
  senderId := senderId
  sendAt := 1
  sendAckAt := none
  signature := signature
  providerRequestId := none
  httpStatus := some 429
  rpcErrCode := none
  rpcErrMessage := none
  rateLimitState := .throttled429
  error := some "http 429"

def plainMatch (signature : Signature) : MatchEvent where
  signature := signature
  observedAt := 1
  observedSlot := 8
  observedEntryIndex := 0
  observedTickInSlot := none
  observedCumulativeHashesInSlot := none
  observedSource := .yellowstone

end SolanaBench.FanOut.Matcher
