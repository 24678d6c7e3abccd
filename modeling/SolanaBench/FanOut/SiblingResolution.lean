import SolanaBench.FanOut.MatcherRun

/-! How a trigger is resolved. Registrations, replies and matches reach the matcher on
channels of their own, so a match may be served before a sibling is registered, and then
nothing resolves that sibling. -/
namespace SolanaBench.FanOut.Matcher

open Nonce

def variants (is : List Input) (t : TriggerId) : List RegisterEvent :=
  (registrations is).filter fun reg => reg.triggerId = t

/-- Its one row is there, with this outcome. -/
def Concluded (os : List Output) (reg : RegisterEvent) (o : TentativeOutcome) : Prop :=
  (rowsOf reg.key os).map FinalRecord.verdict = [(reg.signature, o)]

def landedRows (t : TriggerId) (os : List Output) : List FinalRecord :=
  (finals os).filter fun row => row.triggerId = t ∧ row.tentativeOutcome = .landedTentative

def fails (reg : RegisterEvent) : Input → Bool
  | .send ev => decide (ev.key = reg.key) && ev.error.isSome
  | _ => false

def hits (reg : RegisterEvent) : Input → Bool
  | .matched ev _ _ => decide (ev.signature = reg.signature)
  | _ => false

def lapses (cfg : MatcherConfig) (reg : RegisterEvent) : Input → Bool
  | .deadlineSweep now => expired cfg now reg
  | _ => false

/-- A match of the variant is served before its deadline and before any error of it. -/
def MatchedInTime (cfg : MatcherConfig) (is : List Input) (reg : RegisterEvent) : Prop :=
  SomeSplit (fun pre i => hits reg i ∧ ∀ j ∈ pre, fails reg j = false ∧ lapses cfg reg j = false) is

/-- The variant is registered, and no error of it and no expiry has been served since. -/
def awaited (cfg : MatcherConfig) (reg : RegisterEvent) (is : List Input) : Bool :=
  is.foldl (fun b i =>
    decide (registration? i = some reg) || (b && !fails reg i && !lapses cfg reg i)) false

def MatchedWhileAwaited (cfg : MatcherConfig) (is : List Input) (reg : RegisterEvent) : Prop :=
  SomeSplit (fun pre i => hits reg i ∧ awaited cfg reg pre) is

/-- What a run promises of a trigger. -/
structure Resolution (cfg : MatcherConfig) (is : List Input) (now : Instant) (t : TriggerId) :
    Prop where
  one : ∀ reg ∈ variants is t, ∃ o, Concluded (runLoop cfg is now).2 reg o
  atMostOne : (landedRows t (runLoop cfg is now).2).length ≤ 1
  resolves : ∀ reg ∈ variants is t, MatchedInTime cfg is reg →
    ∃ winner ∈ variants is t, Concluded (runLoop cfg is now).2 winner .landedTentative ∧
      ∀ sibling ∈ variants is t, sibling ≠ winner → (∀ i ∈ is, fails sibling i = false) →
        Concluded (runLoop cfg is now).2 sibling .dedupedTentative

/-- Attempts have keys and signatures of their own, and the variants of a trigger the time
at which it was observed. -/
structure Dispatched (is : List Input) : Prop where
  keys : ((registrations is).map RegisterEvent.key).Nodup
  signatures : ((registrations is).map RegisterEvent.signature).Nodup
  observedAt : ∀ reg ∈ registrations is, ∀ sibling ∈ registrations is,
    reg.triggerId = sibling.triggerId → reg.triggerObservedAt = sibling.triggerObservedAt

instance (is : List Input) : Decidable (Dispatched is) :=
  decidable_of_iff (((registrations is).map RegisterEvent.key).Nodup ∧
    ((registrations is).map RegisterEvent.signature).Nodup ∧
    ∀ reg ∈ registrations is, ∀ sibling ∈ registrations is,
      reg.triggerId = sibling.triggerId → reg.triggerObservedAt = sibling.triggerObservedAt)
    ⟨fun h => ⟨h.1, h.2.1, h.2.2⟩, fun h => ⟨h.1, h.2, h.3⟩⟩

/-- A registration is served before the match in time of its variant, and before the
matches of awaited siblings. -/
def AheadOfMatches (cfg : MatcherConfig) (pre : List Input) : Input → Prop
  | .register reg => ¬MatchedInTime cfg pre reg ∧
    ∀ sibling ∈ variants pre reg.triggerId, ¬MatchedWhileAwaited cfg pre sibling
  | .send _ | .matched _ _ _ | .deadlineSweep _ => True

instance (cfg : MatcherConfig) (is : List Input) (reg : RegisterEvent) :
    Decidable (MatchedInTime cfg is reg) :=
  inferInstanceAs (Decidable (SomeSplit _ is))

instance (cfg : MatcherConfig) (is : List Input) (reg : RegisterEvent) :
    Decidable (MatchedWhileAwaited cfg is reg) :=
  inferInstanceAs (Decidable (SomeSplit _ is))

instance (cfg : MatcherConfig) (pre : List Input) : DecidablePred (AheadOfMatches cfg pre)
  | .register reg => inferInstanceAs (Decidable (¬MatchedInTime cfg pre reg ∧
    ∀ sibling ∈ variants pre reg.triggerId, ¬MatchedWhileAwaited cfg pre sibling))
  | .send _ | .matched _ _ _ | .deadlineSweep _ => inferInstanceAs (Decidable True)

@[simp] theorem awaited_snoc (cfg : MatcherConfig) (reg : RegisterEvent) (is : List Input)
    (i : Input) : awaited cfg reg (is ++ [i]) = (decide (registration? i = some reg) ||
      (awaited cfg reg is && !fails reg i && !lapses cfg reg i)) := by
  simp [awaited, List.foldl_append]

theorem mem_variants {is : List Input} {t : TriggerId} {reg : RegisterEvent} :
    reg ∈ variants is t ↔ reg ∈ registrations is ∧ reg.triggerId = t := by
  simp [variants]

namespace Dispatched

variable {is : List Input} {i : Input}

theorem of_append {js : List Input} (h : Dispatched (is ++ js)) : Dispatched is := by
  have hk := h.keys
  have hs := h.signatures
  rw [registrations_append, List.map_append] at hk hs
  refine ⟨hk.of_append_left, hs.of_append_left, fun reg hreg sibling hsib => ?_⟩
  refine h.observedAt reg ?_ sibling ?_ <;> rw [registrations_append] <;>
    exact List.mem_append_left _ ‹_›

theorem eq_of_key (h : Dispatched is) {reg r : RegisterEvent} (hreg : reg ∈ registrations is)
    (hr : r ∈ registrations is) (hk : reg.key = r.key) : reg = r :=
  List.inj_on_of_nodup_map h.keys hreg hr hk

/-- A new registration has a key and a signature of its own. -/
theorem fresh (h : Dispatched (is ++ [i])) : ∀ reg ∈ registration? i,
    ∀ r ∈ registrations is, r.key ≠ reg.key ∧ r.signature ≠ reg.signature := by
  intro reg hreg r hr
  refine ⟨?_, fresh_signature h.signatures reg hreg r hr⟩
  have hk := h.keys
  rw [registrations_snoc, hreg, List.map_append, List.nodup_append] at hk
  exact hk.2.2 _ (List.mem_map_of_mem hr) _ (by simp)

end Dispatched

/-! ## The rows of the attempts that are closed -/

/-- What has happened where an attempt has this outcome. Only a match leaves the signature
in the index. -/
def Cause (cfg : MatcherConfig) (is : List Input) (st : State) (reg : RegisterEvent) :
    TentativeOutcome → Prop
  | .sendError => (∃ i ∈ is, fails reg i) ∧ st.sigToKey.lookup reg.signature = none
  | .unknownPending => (∃ i ∈ is, lapses cfg reg i) ∧ st.sigToKey.lookup reg.signature = none
  | .landedTentative | .dedupedTentative => True
  | .trulyMissing => False

/-- Open attempts have no row, closed ones have one, and there are no others. -/
structure Rows (cfg : MatcherConfig) (is : List Input) (st : State) (os : List Output) : Prop where
  opened : ∀ reg ∈ registrations is, st.regOf reg.key ≠ none →
    st.regOf reg.key = some reg ∧ rowsOf reg.key os = []
  closed : ∀ reg ∈ registrations is, st.regOf reg.key = none →
    ∃ o, Concluded os reg o ∧ Cause cfg is st reg o
  unseen : ∀ key, (∀ reg ∈ registrations is, reg.key ≠ key) →
    st.regOf key = none ∧ rowsOf key os = []
  awaits : ∀ reg ∈ registrations is, st.regOf reg.key ≠ none → awaited cfg reg is

section

variable {cfg : MatcherConfig} {is : List Input} {st st' : State} {os ps : List Output}
  {out : Key → Option TentativeOutcome} {reg : RegisterEvent} {o : TentativeOutcome} {i : Input}

theorem Concluded.unique {o' : TentativeOutcome} (h : Concluded os reg o)
    (h' : Concluded os reg o') : o = o' := by
  unfold Concluded at h h'
  rw [h] at h'
  simpa using h'

/-- The rows of a closed attempt are final. -/
theorem Closes.concluded_closed (hc : Closes out st st' ps) (hreg : st.regOf reg.key = none) :
    Concluded (os ++ ps) reg o ↔ Concluded os reg o := by
  unfold Concluded
  rw [rowsOf_append, hc.rowsOf_eq_nil hreg, List.append_nil]

theorem Closes.concluded_open (hc : Closes out st st' ps) (hreg : st.regOf reg.key = some reg)
    (hrows : rowsOf reg.key os = []) : Concluded (os ++ ps) reg o ↔ out reg.key = some o := by
  unfold Concluded
  rw [rowsOf_append, hrows, List.nil_append, hc.rows, hreg]
  cases out reg.key <;> simp

theorem Cause.mono {st' : State} (h : Cause cfg is st reg o)
    (hgone : st.sigToKey.lookup reg.signature = none → st'.sigToKey.lookup reg.signature = none) :
    Cause cfg (is ++ [i]) st' reg o := by
  have hmem : ∀ j ∈ is, j ∈ is ++ [i] := fun j hj => List.mem_append_left _ hj
  cases o with
  | sendError =>
    obtain ⟨⟨j, hj, hf⟩, hsig⟩ := h
    exact ⟨⟨j, hmem j hj, hf⟩, hgone hsig⟩
  | unknownPending =>
    obtain ⟨⟨j, hj, hl⟩, hsig⟩ := h
    exact ⟨⟨j, hmem j hj, hl⟩, hgone hsig⟩
  | landedTentative => trivial
  | dedupedTentative => trivial
  | trulyMissing => exact h

/-- What closes an attempt is a cause of its outcome. -/
theorem cause_of_closing (ht : Tracks (registrations is) st) (cfg : MatcherConfig)
    (hi : registration? i = none) (hreg : st.regOf reg.key = some reg)
    (ho : closing cfg st i reg.key = some o) :
    Cause cfg (is ++ [i]) ((machine cfg).step st i).1 reg o := by
  cases i with
  | register r => cases hi
  | send ev =>
    simp only [closing, sendOut] at ho
    split_ifs at ho with hsend
    obtain rfl := Option.some.inj ho
    have hgone := (drops_handleSendEvent ht.keyed cfg ev).gone reg.key reg hreg
      (by simp [sendOut, hsend])
    exact ⟨⟨.send ev, by simp, by simp [fails, hsend]⟩, hgone⟩
  | matched ev cache now =>
    obtain ⟨winner, -, hwon⟩ := Option.bind_eq_some_iff.mp ho
    split_ifs at hwon
    · rw [← Option.some.inj hwon]
      trivial
    · rw [← Option.some.inj hwon]
      trivial
  | deadlineSweep now =>
    simp only [closing, sweepOut, hreg, Option.bind_some] at ho
    split_ifs at ho with hexp
    obtain rfl := Option.some.inj ho
    have hgone := (drops_sweepDeadlines ht.keyed cfg now).gone reg.key reg hreg
      (by simp [sweepOut, hreg, hexp])
    exact ⟨⟨.deadlineSweep now, by simp, hexp⟩, hgone⟩

/-- An error reply and an expiry close an open attempt. -/
theorem closing_ne_none (cfg : MatcherConfig) (hreg : st.regOf reg.key = some reg)
    (h : fails reg i ∨ lapses cfg reg i) : closing cfg st i reg.key ≠ none := by
  cases i with
  | register r => simp [fails, lapses] at h
  | send ev =>
    have hf : ev.key = reg.key ∧ ev.error.isSome := by simpa [fails, lapses] using h
    simp [closing, sendOut, hf]
  | matched ev cache now => simp [fails, lapses] at h
  | deadlineSweep now =>
    have hl : expired cfg now reg := by simpa [fails, lapses] using h
    simp [closing, sweepOut, hreg, hl]

theorem shrinks_step (ht : Tracks (registrations is) st) (cfg : MatcherConfig)
    (hi : registration? i = none) {sig : Signature} (hgone : st.sigToKey.lookup sig = none) :
    ((machine cfg).step st i).1.sigToKey.lookup sig = none := by
  by_contra hne
  obtain ⟨key, hkey⟩ := Option.ne_none_iff_exists'.mp hne
  have hold : st.sigToKey.lookup sig = some key := by
    cases i with
    | register r => cases hi
    | send ev => exact (drops_handleSendEvent ht.keyed cfg ev).shrinks hkey
    | matched ev cache now =>
      rw [← sigToKey_handleMatchEvent cfg st ev cache now]
      exact hkey
    | deadlineSweep now => exact (drops_sweepDeadlines ht.keyed cfg now).shrinks hkey
  rw [hgone] at hold
  cases hold

namespace Rows

theorem init : Rows cfg [] {} [] :=
  ⟨fun reg hreg => by simp at hreg, fun reg hreg => by simp at hreg, fun key _ => ⟨rfl, rfl⟩,
    fun reg hreg => by simp at hreg⟩

theorem register (h : Rows cfg is st os) (hd : Dispatched (is ++ [.register reg])) :
    Rows cfg (is ++ [.register reg]) (registerAttempt st reg) os := by
  have hfresh := hd.fresh reg rfl
  have hmem : ∀ r, r ∈ registrations (is ++ [.register reg]) ↔ r ∈ registrations is ∨ r = reg := by
    simp [registrations_snoc, registration?]
  have hold : ∀ r ∈ registrations is, (registerAttempt st reg).regOf r.key = st.regOf r.key :=
    fun r hr => by rw [regOf_registerAttempt, if_neg (hfresh r hr).1]
  have hnew : (registerAttempt st reg).regOf reg.key = some reg := by
    rw [regOf_registerAttempt, if_pos rfl]
  refine ⟨fun r hr hopen => ?_, fun r hr hclosed => ?_, fun key hkey => ?_,
    fun r hr hopen => ?_⟩
  · rcases (hmem r).mp hr with hr | rfl
    · rw [hold r hr] at hopen ⊢
      exact h.opened r hr hopen
    · exact ⟨hnew, (h.unseen r.key fun r' hr' => (hfresh r' hr').1).2⟩
  · rcases (hmem r).mp hr with hr | rfl
    · rw [hold r hr] at hclosed
      obtain ⟨o, ho, hcause⟩ := h.closed r hr hclosed
      refine ⟨o, ho, hcause.mono fun hgone => ?_⟩
      exact (AList.lookup_insert_ne (hfresh r hr).2).trans hgone
    · rw [hnew] at hclosed
      cases hclosed
  · have hne : key ≠ reg.key := fun heq => hkey reg ((hmem reg).mpr (Or.inr rfl)) heq.symm
    rw [regOf_registerAttempt, if_neg hne]
    exact h.unseen key fun r hr => hkey r ((hmem r).mpr (Or.inl hr))
  · rcases (hmem r).mp hr with hr | rfl
    · rw [hold r hr] at hopen
      simp [fails, lapses, h.awaits r hr hopen]
    · simp [registration?]

theorem quiet (h : Rows cfg is st os) (ht : Tracks (registrations is) st)
    (hi : registration? i = none) :
    Rows cfg (is ++ [i]) ((machine cfg).step st i).1 (os ++ ((machine cfg).step st i).2) := by
  have hc := closes_step ht.keyed cfg hi
  refine ⟨fun r hr hopen => ?_, fun r hr hclosed => ?_, fun key hkey => ?_,
    fun r hr hopen => ?_⟩
  · rw [registrations_quiet hi] at hr
    rw [hc.opened] at hopen ⊢
    split_ifs at hopen ⊢ with hout
    · exact absurd rfl hopen
    · obtain ⟨hreg, hrows⟩ := h.opened r hr hopen
      refine ⟨hreg, ?_⟩
      have hnone : closing cfg st i r.key = none := by simpa using hout
      have hnew := hc.rows r.key
      rw [hreg, hnone] at hnew
      rw [rowsOf_append, hrows]
      simpa using hnew
  · rw [registrations_quiet hi] at hr
    rw [hc.opened] at hclosed
    by_cases hreg : st.regOf r.key = none
    · obtain ⟨o, ho, hcause⟩ := h.closed r hr hreg
      exact ⟨o, (hc.concluded_closed hreg).mpr ho, hcause.mono (shrinks_step ht cfg hi)⟩
    · obtain ⟨hself, hrows⟩ := h.opened r hr hreg
      cases ho : closing cfg st i r.key with
      | none => simp [ho, hreg] at hclosed
      | some o =>
        exact ⟨o, (hc.concluded_open hself hrows).mpr ho, cause_of_closing ht cfg hi hself ho⟩
  · rw [registrations_quiet hi] at hkey
    obtain ⟨hreg, hrows⟩ := h.unseen key hkey
    rw [hc.opened, hreg, rowsOf_append, hrows, hc.rowsOf_eq_nil hreg]
    simp
  · rw [registrations_quiet hi] at hr
    rw [hc.opened] at hopen
    split_ifs at hopen with hout
    · exact absurd rfl hopen
    · have hnone : closing cfg st i r.key = none := by simpa using hout
      have hstays : ¬(fails r i ∨ lapses cfg r i) := fun hends =>
        closing_ne_none cfg (h.opened r hr hopen).1 hends hnone
      rw [not_or] at hstays
      simp [h.awaits r hr hopen, hstays]

theorem step (h : Rows cfg is st os) (ht : Tracks (registrations is) st)
    (hd : Dispatched (is ++ [i])) :
    Rows cfg (is ++ [i]) ((machine cfg).step st i).1 (os ++ ((machine cfg).step st i).2) := by
  cases hi : registration? i with
  | none => exact h.quiet ht hi
  | some reg =>
    obtain rfl := registration?_eq_some.mp hi
    rw [append_step_register]
    exact h.register hd

theorem run (cfg : MatcherConfig) (hd : Dispatched is) :
    Rows cfg is ((machine cfg).run {} is).1 ((machine cfg).run {} is).2 := by
  induction is using List.reverseRecOn with
  | nil => exact init
  | append_singleton is i ih =>
    have hold := hd.of_append
    have hnext := (ih hold).step (Tracks.run cfg is hold.signatures) hd
    simpa using hnext

end Rows

/-! ## Triggers -/

/-- No variant is resolved yet. -/
def Undecided (is : List Input) (os : List Output) (t : TriggerId) : Prop :=
  ∀ reg ∈ variants is t,
    ¬Concluded os reg .landedTentative ∧ ¬Concluded os reg .dedupedTentative

/-- `winner` has landed, no variant is open, and the others ended as `P` says. -/
structure Decided (cfg : MatcherConfig) (P : TentativeOutcome → Prop) (is : List Input) (st : State)
    (os : List Output) (t : TriggerId) (winner : RegisterEvent) : Prop where
  mem : winner ∈ variants is t
  matched : MatchedWhileAwaited cfg is winner
  landed : Concluded os winner .landedTentative
  closed : ∀ reg ∈ variants is t, st.regOf reg.key = none
  others : ∀ reg ∈ variants is t, reg ≠ winner → ∀ o, Concluded os reg o → P o

variable {P : TentativeOutcome → Prop} {t : TriggerId} {winner : RegisterEvent}

theorem variants_quiet (hi : registration? i = none) (t : TriggerId) :
    variants (is ++ [i]) t = variants is t := by
  unfold variants
  rw [registrations_quiet hi]

theorem variants_register_ne (h : reg.triggerId ≠ t) :
    variants (is ++ [.register reg]) t = variants is t := by
  simp [variants, registrations_snoc, registration?, h]

/-- A decided trigger stays as it is, since no variant is registered any more. -/
theorem Decided.step (h : Decided cfg P is st os t winner) (ht : Tracks (registrations is) st)
    (hd : Dispatched (is ++ [i])) (ha : AheadOfMatches cfg is i) :
    Decided cfg P (is ++ [i]) ((machine cfg).step st i).1 (os ++ ((machine cfg).step st i).2) t
      winner := by
  cases hi : registration? i with
  | none =>
    have hc := closes_step ht.keyed cfg hi
    refine ⟨?_, SomeSplit.snoc h.matched i, ?_, fun reg hreg => ?_, fun reg hreg hne o ho => ?_⟩
    · rw [variants_quiet hi]
      exact h.mem
    · exact (hc.concluded_closed (h.closed winner h.mem)).mpr h.landed
    · rw [variants_quiet hi] at hreg
      rw [hc.opened, h.closed reg hreg, ite_self]
    · rw [variants_quiet hi] at hreg
      exact h.others reg hreg hne o ((hc.concluded_closed (h.closed reg hreg)).mp ho)
  | some reg =>
    obtain rfl := registration?_eq_some.mp hi
    have hne : reg.triggerId ≠ t := by
      rintro rfl
      exact ha.2 winner h.mem h.matched
    rw [append_step_register]
    refine ⟨?_, SomeSplit.snoc h.matched _, h.landed, fun reg' hreg' => ?_, ?_⟩
    · rw [variants_register_ne hne]
      exact h.mem
    · rw [variants_register_ne hne] at hreg'
      have hkey := (hd.fresh reg rfl reg' (mem_variants.mp hreg').1).1
      have hsame : (registerAttempt st reg).regOf reg'.key = none := by
        rw [regOf_registerAttempt, if_neg hkey]
        exact h.closed reg' hreg'
      exact hsame
    · rw [variants_register_ne hne]
      exact h.others

/-- A match that finds its attempt open decides the trigger. -/
theorem decided_of_match (hu : Undecided is os t) (hr : Rows cfg is st os)
    (ht : Tracks (registrations is) st) (hw : winner ∈ variants is t)
    (hopen : st.regOf winner.key ≠ none) (ev : MatchEvent) (hev : ev.signature = winner.signature)
    (cache : SlotHashCache) (now : Instant) (hd : Dispatched is) :
    let r := (machine cfg).step st (.matched ev cache now)
    Decided cfg (· ≠ .landedTentative) (is ++ [.matched ev cache now]) r.1 (os ++ r.2) t winner := by
  show Decided _ _ _ (handleMatchEvent cfg st ev cache now).1
    (os ++ (handleMatchEvent cfg st ev cache now).2) t winner
  have hc := closes_handleMatchEvent ht.keyed cfg ev cache now
  obtain ⟨hmem, htrigger⟩ := mem_variants.mp hw
  obtain ⟨hself, hrows⟩ := hr.opened winner hmem hopen
  have hsig : st.sigToKey.lookup ev.signature = some winner.key := by
    rw [hev]
    exact (ht.opened _ _ hself).2.2
  have hout : ∀ reg ∈ variants is t, matchOut st ev reg.key =
      some (if reg.key = winner.key then .landedTentative else .dedupedTentative) := by
    intro reg hreg
    have hsame : reg.key.1 = winner.key.1 := (mem_variants.mp hreg).2.trans htrigger.symm
    simp [matchOut, hsig, hsame]
  have hmatched : MatchedWhileAwaited cfg (is ++ [.matched ev cache now]) winner :=
    SomeSplit.snoc_iff.mpr (Or.inr ⟨by simp [hits, hev], hr.awaits winner hmem hopen⟩)
  refine ⟨?_, hmatched, ?_, fun reg hreg => ?_, fun reg hreg hne o ho => ?_⟩
  · rw [variants_quiet rfl]
    exact hw
  · exact (hc.concluded_open hself hrows).mpr (by rw [hout winner hw, if_pos rfl])
  · rw [variants_quiet rfl] at hreg
    rw [hc.opened, hout reg hreg]
    rfl
  · rw [variants_quiet rfl] at hreg
    have hregs := (mem_variants.mp hreg).1
    by_cases hclosed : st.regOf reg.key = none
    · rintro rfl
      exact (hu reg hreg).1 ((hc.concluded_closed hclosed).mp ho)
    · obtain ⟨hreg', hrows'⟩ := hr.opened reg hregs hclosed
      have hkey : reg.key ≠ winner.key := fun hk => hne (hd.eq_of_key hregs hmem hk)
      have hdeduped := (hc.concluded_open hreg' hrows').mp ho
      rw [hout reg hreg, if_neg hkey] at hdeduped
      rw [← Option.some.inj hdeduped]
      exact TentativeOutcome.noConfusion

/-- An indexed variant of an undecided trigger is open. -/
theorem Undecided.open_of_known (hu : Undecided is os t) (hr : Rows cfg is st os)
    (hreg : reg ∈ variants is t) {key : Key}
    (hsig : st.sigToKey.lookup reg.signature = some key) : st.regOf reg.key ≠ none := by
  intro hclosed
  obtain ⟨o, ho, hcause⟩ := hr.closed reg (mem_variants.mp hreg).1 hclosed
  have hgone : st.sigToKey.lookup reg.signature ≠ none := by simp [hsig]
  cases o with
  | landedTentative => exact (hu reg hreg).1 ho
  | dedupedTentative => exact (hu reg hreg).2 ho
  | unknownPending => exact hgone hcause.2
  | sendError => exact hgone hcause.2
  | trulyMissing => exact hcause

/-- What a step that closes no variant by a match leaves undecided. -/
theorem Undecided.quiet (hu : Undecided is os t) (hr : Rows cfg is st os)
    (ht : Tracks (registrations is) st) (hi : registration? i = none)
    (hout : ∀ reg ∈ variants is t, ∀ o, closing cfg st i reg.key = some o →
      o = .sendError ∨ o = .unknownPending) :
    Undecided (is ++ [i]) (os ++ ((machine cfg).step st i).2) t := by
  have hc := closes_step ht.keyed cfg hi
  have hstill : ∀ reg ∈ variants is t, ∀ o, o ≠ .sendError → o ≠ .unknownPending →
      Concluded (os ++ ((machine cfg).step st i).2) reg o → Concluded os reg o := by
    intro reg hreg o hne hne' ho
    by_cases hclosed : st.regOf reg.key = none
    · exact (hc.concluded_closed hclosed).mp ho
    · obtain ⟨hself, hrows⟩ := hr.opened reg (mem_variants.mp hreg).1 hclosed
      rcases hout reg hreg o ((hc.concluded_open hself hrows).mp ho) with h | h
      · exact absurd h hne
      · exact absurd h hne'
  rw [Undecided, variants_quiet hi]
  intro reg hreg
  exact ⟨fun ho => (hu reg hreg).1 (hstill reg hreg _ (by simp) (by simp) ho),
    fun ho => (hu reg hreg).2 (hstill reg hreg _ (by simp) (by simp) ho)⟩

/-- The stages of a trigger. -/
def Staged (cfg : MatcherConfig) (is : List Input) (st : State) (os : List Output) (t : TriggerId) : Prop :=
  Undecided is os t ∨ ∃ winner, Decided cfg (· ≠ .landedTentative) is st os t winner

theorem Staged.step (h : Staged cfg is st os t) (hr : Rows cfg is st os)
    (ht : Tracks (registrations is) st) (hd : Dispatched (is ++ [i]))
    (ha : AheadOfMatches cfg is i) :
    Staged cfg (is ++ [i]) ((machine cfg).step st i).1 (os ++ ((machine cfg).step st i).2) t := by
  rcases h with hu | ⟨winner, hdec⟩
  · cases i with
    | register reg =>
      left
      rw [append_step_register]
      intro r hr'
      obtain ⟨hmem, htr⟩ := mem_variants.mp hr'
      rw [registrations_snoc, List.mem_append] at hmem
      rcases hmem with hold | hnew
      · exact hu r (mem_variants.mpr ⟨hold, htr⟩)
      · obtain rfl : r = reg := by simpa [registration?] using hnew
        have hnone := (hr.unseen r.key fun r' hr' => (hd.fresh r rfl r' hr').1).2
        constructor <;> simp [Concluded, hnone]
    | send ev =>
      refine Or.inl (hu.quiet hr ht rfl fun reg _ o ho => ?_)
      simp only [closing, sendOut] at ho
      split_ifs at ho
      exact Or.inl (Option.some.inj ho).symm
    | deadlineSweep now =>
      refine Or.inl (hu.quiet hr ht rfl fun reg _ o ho => ?_)
      obtain ⟨r, -, hexp⟩ := Option.bind_eq_some_iff.mp ho
      split_ifs at hexp
      exact Or.inr (Option.some.inj hexp).symm
    | matched ev cache now =>
      by_cases hours : ∃ key, st.sigToKey.lookup ev.signature = some key ∧ key.1 = t
      · obtain ⟨key, hsig, hkey⟩ := hours
        obtain ⟨winner, hmem, hw, hk⟩ := ht.known _ _ hsig
        have hwt : winner ∈ variants is t := mem_variants.mpr ⟨hmem, by
          rw [← hkey, ← hk]
          rfl⟩
        have hopen := hu.open_of_known hr hwt (hw ▸ hsig)
        exact Or.inr ⟨winner, decided_of_match hu hr ht hwt hopen ev hw.symm cache now
          hd.of_append⟩
      · refine Or.inl (hu.quiet hr ht rfl fun reg hreg o ho => ?_)
        obtain ⟨key, hsig, hout⟩ := Option.bind_eq_some_iff.mp ho
        have hne : reg.key.1 ≠ key.1 := fun heq =>
          hours ⟨key, hsig, heq.symm.trans (mem_variants.mp hreg).2⟩
        rw [if_neg hne] at hout
        cases hout
  · exact Or.inr ⟨winner, hdec.step ht hd ha⟩

theorem staged_run (cfg : MatcherConfig) (hd : Dispatched is) (ha : EverySplit (AheadOfMatches cfg) is)
    (t : TriggerId) : Staged cfg is ((machine cfg).run {} is).1 ((machine cfg).run {} is).2 t := by
  induction is using List.reverseRecOn with
  | nil => exact Or.inl fun reg hreg => by simp [variants] at hreg
  | append_singleton is i ih =>
    obtain ⟨hais, hai⟩ := EverySplit.snoc_iff.mp ha
    have hold := hd.of_append
    have hnext := (ih hold hais).step (Rows.run cfg hold) (Tracks.run cfg is hold.signatures) hd hai
    simpa using hnext

/-- Decided triggers stay decided for the rest of the run. -/
theorem decided_run {js : List Input} (hd : Dispatched (is ++ js))
    (ha : EverySplit (AheadOfMatches cfg) (is ++ js))
    (h : Decided cfg P is ((machine cfg).run {} is).1 ((machine cfg).run {} is).2 t winner) :
    Decided cfg P (is ++ js) ((machine cfg).run {} (is ++ js)).1 ((machine cfg).run {} (is ++ js)).2 t
      winner := by
  induction js using List.reverseRecOn with
  | nil => simpa using h
  | append_singleton js i ih =>
    rw [← List.append_assoc] at hd ha ⊢
    obtain ⟨hais, hai⟩ := EverySplit.snoc_iff.mp ha
    have hold := hd.of_append
    have hnext := (ih hold hais).step (Tracks.run cfg _ hold.signatures) hd hai
    simpa using hnext

/-! ## The end of a run -/

theorem mem_registrations : reg ∈ registrations is ↔ .register reg ∈ is := by
  unfold registrations
  rw [List.mem_filterMap]
  constructor
  · rintro ⟨i, hi, hreg⟩
    rw [← registration?_eq_some.mp hreg]
    exact hi
  · exact fun h => ⟨_, h, rfl⟩

/-- A variant is registered before it is matched in time. -/
theorem registered_of_hit {pre post : List Input}
    (ha : EverySplit (AheadOfMatches cfg) (pre ++ i :: post))
    (hreg : reg ∈ registrations (pre ++ i :: post)) (hhit : hits reg i)
    (hquiet : ∀ j ∈ pre, fails reg j = false ∧ lapses cfg reg j = false) :
    reg ∈ registrations pre := by
  rcases List.mem_append.mp (mem_registrations.mp hreg) with hpre | hpost
  · exact mem_registrations.mpr hpre
  · rcases List.mem_cons.mp hpost with rfl | hpost
    · cases hhit
    · obtain ⟨a, b, rfl⟩ := List.append_of_mem hpost
      have hlate := ha (pre ++ i :: a) (.register reg) b (by simp)
      exact absurd ⟨pre, i, a, rfl, hhit, hquiet⟩ hlate.1

/-- Without an error or an expiry, and with no tentative row, a variant is still open. -/
theorem Rows.open_of_quiet (hr : Rows cfg is st os) (hreg : reg ∈ registrations is)
    (hnone : ¬Concluded os reg .landedTentative ∧ ¬Concluded os reg .dedupedTentative)
    (hquiet : ∀ j ∈ is, fails reg j = false ∧ lapses cfg reg j = false) :
    st.regOf reg.key ≠ none := by
  intro hclosed
  obtain ⟨o, ho, hcause⟩ := hr.closed reg hreg hclosed
  cases o with
  | landedTentative => exact hnone.1 ho
  | dedupedTentative => exact hnone.2 ho
  | unknownPending =>
    obtain ⟨⟨j, hj, hlapse⟩, -⟩ := hcause
    rw [(hquiet j hj).2] at hlapse
    cases hlapse
  | sendError =>
    obtain ⟨⟨j, hj, hfail⟩, -⟩ := hcause
    rw [(hquiet j hj).1] at hfail
    cases hfail
  | trulyMissing => exact hcause

/-- Siblings expire at one sweep. -/
theorem lapses_congr {sibling : RegisterEvent} {j : Input}
    (h : sibling.triggerObservedAt = reg.triggerObservedAt) (hlapse : lapses cfg sibling j) :
    lapses cfg reg j := by
  cases j with
  | deadlineSweep now => simpa [lapses, expired, h] using hlapse
  | register r => cases hlapse
  | send ev => cases hlapse
  | matched ev cache now => cases hlapse

/-- A match of a variant decides its trigger, if nothing has closed the variant before. -/
theorem decided_of_hit (cfg : MatcherConfig) {pre : List Input} (hd : Dispatched (pre ++ [i]))
    (ha : EverySplit (AheadOfMatches cfg) (pre ++ [i])) (hreg : reg ∈ variants pre t)
    (hhit : hits reg i)
    (hquiet : ∀ j ∈ pre, fails reg j = false ∧ lapses cfg reg j = false) :
    ∃ winner, Decided cfg (· ≠ .landedTentative) (pre ++ [i])
      ((machine cfg).run {} (pre ++ [i])).1 ((machine cfg).run {} (pre ++ [i])).2 t winner := by
  have hdpre := hd.of_append
  obtain ⟨hapre, hai⟩ := EverySplit.snoc_iff.mp ha
  have hr := Rows.run cfg hdpre
  have ht := Tracks.run cfg pre hdpre.signatures
  rcases staged_run cfg hdpre hapre t with hu | ⟨winner, hdec⟩
  · have hopen : ((machine cfg).run {} pre).1.regOf reg.key ≠ none :=
      hr.open_of_quiet (mem_variants.mp hreg).1 (hu reg hreg) hquiet
    cases i with
    | register r => cases hhit
    | send ev => cases hhit
    | deadlineSweep now => cases hhit
    | matched ev cache now =>
      have hev : ev.signature = reg.signature := by simpa [hits] using hhit
      have hdec := decided_of_match hu hr ht hreg hopen ev hev cache now hdpre
      exact ⟨reg, by simpa using hdec⟩
  · have hnext := hdec.step ht hd hai
    exact ⟨winner, by simpa using hnext⟩

theorem not_lapses_of_hit {pre : List Input} (hhit : hits reg i)
    (hquiet : ∀ j ∈ pre, fails reg j = false ∧ lapses cfg reg j = false) :
    ∀ j ∈ pre ++ [i], lapses cfg reg j = false := by
  intro j hj
  rcases List.mem_append.mp hj with hj | hj
  · exact (hquiet j hj).2
  · rw [List.mem_singleton.mp hj]
    cases i with
    | deadlineSweep now => cases hhit
    | register r => cases hhit
    | send ev => cases hhit
    | matched ev cache now => rfl

/-- A match in time decides the trigger, and no variant has lapsed by then. -/
theorem decided_of_matchedInTime (cfg : MatcherConfig) (hd : Dispatched is)
    (ha : EverySplit (AheadOfMatches cfg) is) (hreg : reg ∈ variants is t)
    (hm : MatchedInTime cfg is reg) :
    ∃ winner, Decided cfg (fun o => o ≠ .landedTentative ∧ o ≠ .unknownPending) is
      ((machine cfg).run {} is).1 ((machine cfg).run {} is).2 t winner := by
  obtain ⟨pre, i, post, rfl, hhit, hquiet⟩ := hm
  obtain ⟨hmem, htrigger⟩ := mem_variants.mp hreg
  have hpre : reg ∈ registrations pre := registered_of_hit ha hmem hhit hquiet
  rw [← List.singleton_append, ← List.append_assoc] at hd ha ⊢
  have hdi := hd.of_append
  obtain ⟨winner, hdec⟩ := decided_of_hit cfg hdi ha.of_append (mem_variants.mpr ⟨hpre, htrigger⟩)
    hhit hquiet
  refine ⟨winner, decided_run hd ha ⟨hdec.mem, hdec.matched, hdec.landed, hdec.closed, ?_⟩⟩
  intro sibling hsib hne o ho
  refine ⟨hdec.others sibling hsib hne o ho, ?_⟩
  rintro rfl
  -- the siblings have the deadline of the variant that was matched
  obtain ⟨hsmem, hstrigger⟩ := mem_variants.mp hsib
  obtain ⟨o, ho', hcause⟩ := (Rows.run cfg hdi).closed sibling hsmem (hdec.closed sibling hsib)
  rw [ho'.unique ho] at hcause
  obtain ⟨⟨j, hj, hlapse⟩, -⟩ := hcause
  have hsame : sibling.triggerObservedAt = reg.triggerObservedAt := by
    refine hdi.observedAt sibling hsmem reg ?_ (hstrigger.trans htrigger.symm)
    rw [registrations_append]
    exact List.mem_append_left _ hpre
  have hlapse' : lapses cfg reg j := lapses_congr hsame hlapse
  rw [not_lapses_of_hit hhit hquiet j hj] at hlapse'
  cases hlapse'

/-- The flush ends the open attempts as pending and changes no other. -/
theorem concluded_runLoop (cfg : MatcherConfig) (hd : Dispatched is) (now : Instant)
    (hreg : reg ∈ registrations is) :
    Concluded (runLoop cfg is now).2 reg o ↔
      if ((machine cfg).run {} is).1.regOf reg.key = none
      then Concluded ((machine cfg).run {} is).2 reg o else o = .unknownPending := by
  have hc := (drops_flush (Tracks.run cfg is hd.signatures).keyed cfg now).toCloses
  have hr := Rows.run cfg hd
  have hrun : (runLoop cfg is now).2 = ((machine cfg).run {} is).2 ++
      (flush cfg ((machine cfg).run {} is).1 now).2 := rfl
  rw [hrun]
  split_ifs with hclosed
  · exact hc.concluded_closed hclosed
  · obtain ⟨hself, hrows⟩ := hr.opened reg hreg hclosed
    rw [hc.concluded_open hself hrows, Option.some_inj, eq_comm]

theorem one_row (cfg : MatcherConfig) (hd : Dispatched is) (now : Instant)
    (hreg : reg ∈ registrations is) : ∃ o, Concluded (runLoop cfg is now).2 reg o := by
  by_cases hclosed : ((machine cfg).run {} is).1.regOf reg.key = none
  · obtain ⟨o, ho, -⟩ := (Rows.run cfg hd).closed reg hreg hclosed
    exact ⟨o, by rw [concluded_runLoop cfg hd now hreg, if_pos hclosed]; exact ho⟩
  · exact ⟨.unknownPending, by rw [concluded_runLoop cfg hd now hreg, if_neg hclosed]⟩

/-- Every row is the one of a registered variant. -/
theorem concluded_of_mem_finals (cfg : MatcherConfig) (hd : Dispatched is) (now : Instant)
    {row : FinalRecord} (hrow : row ∈ finals (runLoop cfg is now).2) :
    ∃ reg ∈ registrations is, reg.key = row.key ∧
      Concluded (runLoop cfg is now).2 reg row.tentativeOutcome := by
  have hself : row ∈ rowsOf row.key (runLoop cfg is now).2 :=
    List.mem_filter.mpr ⟨hrow, by simp⟩
  by_cases hseen : ∃ reg ∈ registrations is, reg.key = row.key
  · obtain ⟨reg, hreg, hkey⟩ := hseen
    obtain ⟨o, ho⟩ := one_row cfg hd now hreg
    have hv : row.verdict ∈ [(reg.signature, o)] := by
      rw [← ho, hkey]
      exact List.mem_map_of_mem hself
    have hout : row.tentativeOutcome = o := congrArg Prod.snd (List.mem_singleton.mp hv)
    exact ⟨reg, hreg, hkey, hout ▸ ho⟩
  · obtain ⟨hclosed, hrows⟩ := (Rows.run cfg hd).unseen row.key fun reg hreg hk =>
      hseen ⟨reg, hreg, hk⟩
    have hc := (drops_flush (Tracks.run cfg is hd.signatures).keyed cfg now).toCloses
    have hnil : rowsOf row.key (runLoop cfg is now).2 = [] := by
      unfold runLoop
      rw [rowsOf_append, hrows, hc.rowsOf_eq_nil hclosed, List.append_nil]
    rw [hnil] at hself
    cases hself

theorem landedRows_le_one (cfg : MatcherConfig) (hd : Dispatched is)
    (ha : EverySplit (AheadOfMatches cfg) is) (now : Instant) (t : TriggerId) :
    (landedRows t (runLoop cfg is now).2).length ≤ 1 := by
  -- a landed row of the trigger is one of an attempt that had landed before the flush
  have hlanded : ∀ row ∈ landedRows t (runLoop cfg is now).2, ∃ reg ∈ variants is t,
      reg.key = row.key ∧ Concluded ((machine cfg).run {} is).2 reg .landedTentative := by
    intro row hrow
    obtain ⟨hfin, hp⟩ := List.mem_filter.mp hrow
    obtain ⟨htrigger, hout⟩ : row.triggerId = t ∧ row.tentativeOutcome = .landedTentative := by
      simpa using hp
    obtain ⟨reg, hreg, hkey, ho⟩ := concluded_of_mem_finals cfg hd now hfin
    rw [hout, concluded_runLoop cfg hd now hreg] at ho
    split_ifs at ho
    exact ⟨reg, mem_variants.mpr ⟨hreg, (congrArg Prod.fst hkey).trans htrigger⟩, hkey, ho⟩
  rcases staged_run cfg hd ha t with hu | ⟨winner, hdec⟩
  · have hnil : landedRows t (runLoop cfg is now).2 = [] :=
      List.eq_nil_iff_forall_not_mem.mpr fun row hrow => by
        obtain ⟨reg, hreg, -, ho⟩ := hlanded row hrow
        exact (hu reg hreg).1 ho
    simp [hnil]
  · have hmem := (mem_variants.mp hdec.mem).1
    obtain ⟨o, hone⟩ := one_row cfg hd now hmem
    have hlen := congrArg List.length hone
    rw [List.length_map, List.length_singleton] at hlen
    have hsub : landedRows t (runLoop cfg is now).2 =
        (rowsOf winner.key (runLoop cfg is now).2).filter
          fun row => row.triggerId = t ∧ row.tentativeOutcome = .landedTentative := by
      unfold rowsOf
      rw [List.filter_filter]
      refine List.filter_congr fun row hrow => ?_
      by_cases hp : row.triggerId = t ∧ row.tentativeOutcome = .landedTentative
      · obtain ⟨reg, hreg, hkey, ho⟩ := hlanded row (List.mem_filter.mpr ⟨hrow, by simpa using hp⟩)
        have hw : reg = winner := by
          by_contra hne
          exact hdec.others reg hreg hne _ ho rfl
        simp [hp, ← hkey, hw]
      · simp [hp]
    rw [hsub, ← hlen]
    exact List.length_filter_le _ _

/-- If no registration is served after a match that counts for its trigger, every trigger is
resolved: one row for each variant, one of them landed at most, and after a match in time one
landed and the others deduplicated unless their sending failed. -/
theorem resolution_of_aheadOfMatches (cfg : MatcherConfig) {is : List Input}
    (hd : Dispatched is) (ha : EverySplit (AheadOfMatches cfg) is) (now : Instant) (t : TriggerId) :
    Resolution cfg is now t := by
  refine ⟨fun reg hreg => one_row cfg hd now (mem_variants.mp hreg).1,
    landedRows_le_one cfg hd ha now t, fun reg hreg hm => ?_⟩
  obtain ⟨winner, hdec⟩ := decided_of_matchedInTime cfg hd ha hreg hm
  have hfinal : ∀ reg ∈ variants is t, ∀ o, Concluded ((machine cfg).run {} is).2 reg o →
      Concluded (runLoop cfg is now).2 reg o := fun reg hreg o ho => by
    rw [concluded_runLoop cfg hd now (mem_variants.mp hreg).1, if_pos (hdec.closed reg hreg)]
    exact ho
  refine ⟨winner, hdec.mem, hfinal winner hdec.mem _ hdec.landed, fun sibling hsib hne hok => ?_⟩
  obtain ⟨o, ho, hcause⟩ :=
    (Rows.run cfg hd).closed sibling (mem_variants.mp hsib).1 (hdec.closed sibling hsib)
  obtain ⟨hnot, hnot'⟩ := hdec.others sibling hsib hne o ho
  cases o with
  | landedTentative => exact absurd rfl hnot
  | unknownPending => exact absurd rfl hnot'
  | dedupedTentative => exact hfinal sibling hsib _ ho
  | sendError =>
    obtain ⟨⟨i, hi, hfail⟩, -⟩ := hcause
    rw [hok i hi] at hfail
    cases hfail
  | trulyMissing => exact hcause.elim

end

/-- A match of a variant that has failed does not count, so its siblings may come later. -/
def resolvedRun : List Input :=
  [.register (plainRegister 1 11), .send (plainError 1 11), .matched (plainMatch 11) { window := 64 } 1,
    .register (plainRegister 2 12), .register (plainRegister 3 13),
    .matched (plainMatch 12) { window := 64 } 1]

theorem resolution_of_aheadOfMatches_resolvedRun : Resolution plainConfig resolvedRun 2 1 :=
  resolution_of_aheadOfMatches plainConfig (by decide) (by decide) 2 1

/-- A sibling registered after the match of the winner is left pending. -/
theorem late_sibling_unresolved : ¬∀ (cfg : MatcherConfig) (is : List Input), Dispatched is →
    ∀ now t, Resolution cfg is now t := by
  intro h
  let late := plainRegister 2 12
  let is : List Input := [.register (plainRegister 1 11),
    .matched (plainMatch 11) { window := 64 } 1, .register late]
  have hpending : Concluded (runLoop plainConfig is 2).2 late .unknownPending := by
    unfold Concluded
    decide +kernel
  have hmatched : MatchedInTime plainConfig is (plainRegister 1 11) :=
    ⟨[.register (plainRegister 1 11)], .matched (plainMatch 11) { window := 64 } 1,
      [.register late], rfl, by decide, by decide⟩
  obtain ⟨winner, -, hlanded, hothers⟩ :=
    (h plainConfig is (by decide) 2 1).resolves _ (by decide) hmatched
  by_cases hw : late = winner
  · rw [← hw] at hlanded
    exact TentativeOutcome.noConfusion (hlanded.unique hpending)
  · have hdeduped := hothers late (by decide) hw (by decide)
    exact TentativeOutcome.noConfusion (hdeduped.unique hpending)

end SolanaBench.FanOut.Matcher
