import SolanaBench.EntryComparator.Correlator
import SolanaBench.Lib.AListEach
import SolanaBench.Lib.Projection
import SolanaBench.Lib.Splits

/-! The records of one key. Its pairing state goes with its record, so an observation that
comes after the record opens the key again and makes a second record. -/
namespace SolanaBench.EntryComparator

/-! ## What is observed and recorded of a key -/

def Input.observation? (k : EntryKey) : Input → Option EntryObservation
  | .observe obs _ => if entryKey obs = k then some obs else none
  | .sweep _ => none

/-- The observations of `k` by one source, in the order of delivery. -/
def observed (src : SourceKind) (k : EntryKey) (is : List Input) : List EntryObservation :=
  (is.filterMap (Input.observation? k)).filter fun obs => obs.source = src

/-- When `k` was first inserted. -/
def firstSeen (k : EntryKey) (is : List Input) : Option Instant :=
  is.findSome? fun
    | .observe obs now => if entryKey obs = k then some now else none
    | .sweep _ => none

def DiffRecord.key (r : DiffRecord) : EntryKey := (r.slot, (r.ysHash.or r.ssHash).getD 0)

def ofKey? (k : EntryKey) (r : DiffRecord) : Option DiffRecord :=
  if r.key = k then some r else none

def recordsOf (k : EntryKey) (rs : List DiffRecord) : List DiffRecord := rs.filterMap (ofKey? k)

/-- It is a sweep, at least the deadline after `k` was first seen. -/
def sweeps (cfg : CorrelatorConfig) (k : EntryKey) (pre : List Input) : Input → Bool
  | .observe _ _ => false
  | .sweep now => (firstSeen k pre).any fun t =>
      decide (Instant.saturatingDurationSince now t ≥ cfg.deadline)

def Swept (cfg : CorrelatorConfig) (k : EntryKey) (is : List Input) : Prop :=
  SomeSplit (fun pre i => sweeps cfg k pre i) is

/-- An observation of `k` by `src` was delivered before `k` was swept. -/
def Delivered (cfg : CorrelatorConfig) (src : SourceKind) (k : EntryKey) (is : List Input) : Prop :=
  SomeSplit (fun pre i => observed src k [i] ≠ [] ∧ ¬Swept cfg k pre) is

structure OneRecord (cfg : CorrelatorConfig) (k : EntryKey) (is : List Input)
    (rs : List DiffRecord) : Prop where
  once : (recordsOf k rs).length ≤ 1
  both : ∀ r ∈ recordsOf k rs, r.source = .both ↔
    Delivered cfg .yellowstone k is ∧ Delivered cfg .shredStream k is
  ysObserved : ∀ r ∈ recordsOf k rs, r.ysObservedNs =
    (observed .yellowstone k is).head?.map fun y => sinceAnchor cfg.anchor y.observedAt
  ssFirstShred : ∀ r ∈ recordsOf k rs, r.ssFirstShredNs =
    ((observed .shredStream k is).head?.bind EntryObservation.firstShredAt).map
      (sinceAnchor cfg.anchor)
  ssFecComplete : ∀ r ∈ recordsOf k rs, r.ssFecCompleteNs =
    (observed .shredStream k is).head?.map fun s => sinceAnchor cfg.anchor s.observedAt

/-! ## The condition -/

/-- The record of `k` is due: both sources were observed, or the key was swept. -/
def Closed (cfg : CorrelatorConfig) (k : EntryKey) (is : List Input) : Prop :=
  observed .yellowstone k is ≠ [] ∧ observed .shredStream k is ≠ [] ∨ Swept cfg k is

/-- Nothing of `k` comes after its record is due. -/
def NoneLate (cfg : CorrelatorConfig) (k : EntryKey) (is : List Input) : Prop :=
  EverySplit (fun pre i => i.observation? k ≠ none → ¬Closed cfg k pre) is

/-- And what a source repeats has the times of its first observation. -/
structure OneLife (cfg : CorrelatorConfig) (k : EntryKey) (is : List Input) : Prop where
  noneLate : NoneLate cfg k is
  ysObserved : (observed .yellowstone k is).getLast?.map
      (fun y => sinceAnchor cfg.anchor y.observedAt) =
    (observed .yellowstone k is).head?.map fun y => sinceAnchor cfg.anchor y.observedAt
  ssFirstShred : ((observed .shredStream k is).getLast?.bind EntryObservation.firstShredAt).map
      (sinceAnchor cfg.anchor) =
    ((observed .shredStream k is).head?.bind EntryObservation.firstShredAt).map
      (sinceAnchor cfg.anchor)
  ssFecComplete : (observed .shredStream k is).getLast?.map
      (fun s => sinceAnchor cfg.anchor s.observedAt) =
    (observed .shredStream k is).head?.map fun s => sinceAnchor cfg.anchor s.observedAt

/-! ## The correlator at one key -/

/-- The pairing state of `k` as a machine of its own. -/
def keyMachine (cfg : CorrelatorConfig) (k : EntryKey) :
    EventMachine (Option MatchState) Input DiffRecord where
  step t
    | .observe obs now =>
      if entryKey obs = k then
        let st := (t.getD { insertedAt := now }).put obs
        if st.paired then (none, st.emit cfg) else (some st, [])
      else (t, [])
    | .sweep now =>
      (t.filter fun st => !st.due now cfg.deadline,
        (t.filter fun st => st.due now cfg.deadline).toList.flatMap (MatchState.emit · cfg))

/-- It holds observations of `k`, at least one. -/
structure MatchState.Of (k : EntryKey) (st : MatchState) : Prop where
  yellowstone : ∀ o ∈ st.yellowstone, entryKey o = k
  shredstream : ∀ o ∈ st.shredstream, entryKey o = k
  nonempty : st.yellowstone.or st.shredstream ≠ none

section

variable {cfg : CorrelatorConfig} {k : EntryKey} {map : Correlator} {st : MatchState}
  {t : Option MatchState}

theorem MatchState.Of.put (h : ∀ st ∈ t, MatchState.Of k st) {obs : EntryObservation}
    (hobs : entryKey obs = k) (now : Instant) :
    MatchState.Of k ((t.getD { insertedAt := now }).put obs) := by
  have hold : ∀ o, (o ∈ (t.getD { insertedAt := now }).yellowstone → entryKey o = k) ∧
      (o ∈ (t.getD { insertedAt := now }).shredstream → entryKey o = k) := by
    intro o
    cases t with
    | none => simp
    | some st => exact ⟨(h st rfl).yellowstone o, (h st rfl).shredstream o⟩
  generalize t.getD { insertedAt := now } = st at *
  unfold MatchState.put
  cases obs.source with
  | yellowstone =>
    refine ⟨fun o ho => ?_, fun o => (hold o).2, by simp⟩
    rw [← Option.some.inj ho]
    exact hobs
  | shredStream =>
    refine ⟨fun o => (hold o).1, fun o ho => ?_, by simp⟩
    rw [← Option.some.inj ho]
    exact hobs

/-- Its record is one, and of `k`. -/
theorem MatchState.Of.emit (h : st.Of k) (cfg : CorrelatorConfig) :
    ∃ r, st.emit cfg = [r] ∧ r.key = k := by
  obtain ⟨first, hfirst⟩ := Option.ne_none_iff_exists'.mp h.nonempty
  refine ⟨st.record cfg first, ?_, ?_⟩
  · unfold MatchState.emit
    rw [hfirst]
    rfl
  · rcases Option.or_eq_some_iff.mp hfirst with hys | ⟨hys, hss⟩
    · rw [← h.yellowstone first hys]
      simp [DiffRecord.key, MatchState.record, hys, entryKey]
    · rw [← h.shredstream first hss]
      simp [DiffRecord.key, MatchState.record, hys, hss, entryKey]

theorem recordsOf_emit (h : st.Of k) : recordsOf k (st.emit cfg) = st.emit cfg := by
  obtain ⟨r, hr, hkey⟩ := h.emit cfg
  rw [hr]
  simp [recordsOf, ofKey?, hkey]

theorem recordsOf_emit_other {k' : EntryKey} (h : st.Of k') (hne : k' ≠ k) :
    recordsOf k (st.emit cfg) = [] := by
  obtain ⟨r, hr, hkey⟩ := h.emit cfg
  rw [hr]
  simp [recordsOf, ofKey?, hkey, hne]

theorem recordsOf_append (k : EntryKey) (rs rs' : List DiffRecord) :
    recordsOf k (rs ++ rs') = recordsOf k rs ++ recordsOf k rs' := List.filterMap_append

/-- Each key holds observations of its own. -/
def WellKeyed (map : Correlator) : Prop := ∀ k, ∀ st ∈ map.lookup k, st.Of k

theorem mem_lookup_of_mem {e : Sigma fun _ : EntryKey => MatchState} (h : e ∈ map.entries) :
    e.2 ∈ map.lookup e.1 := AList.mem_lookup_iff.mpr h

theorem WellKeyed.erase (h : WellKeyed map) (k : EntryKey) : WellKeyed (map.erase k) :=
  AList.Each.erase h k

theorem WellKeyed.insert (h : WellKeyed map) (hst : st.Of k) : WellKeyed (map.insert k st) :=
  AList.Each.insert h hst

/-- A sweep at one key. -/
theorem sweep_key (h : WellKeyed map) (k : EntryKey) (now : Instant) (deadline : Duration) :
    WellKeyed (map.sweep cfg now deadline).1 ∧
      (map.sweep cfg now deadline).1.lookup k =
        (map.lookup k).filter (fun st => !st.due now deadline) ∧
      recordsOf k (map.sweep cfg now deadline).2 =
        ((map.lookup k).filter fun st => st.due now deadline).toList.flatMap
          (MatchState.emit · cfg) := by
  have hlookup : ∀ k, (map.sweep cfg now deadline).1.lookup k =
      (map.lookup k).filter (fun st => !st.due now deadline) := fun k => AList.lookup_retain ..
  refine ⟨fun k' st hst => ?_, hlookup k, ?_⟩
  · rw [hlookup] at hst
    exact h k' st (Option.eq_some_of_filter_eq_some hst)
  · have hview := AList.filterMap_flatMap_entries map
      (fun _ st => if st.due now deadline then st.emit cfg else []) (ofKey? k) k
      fun e he hne => by
        split
        · exact recordsOf_emit_other (h e.1 e.2 (mem_lookup_of_mem he)) hne
        · rfl
    refine hview.trans ?_
    cases hst : map.lookup k with
    | none => rfl
    | some st =>
      by_cases hdue : st.due now deadline = true
      · simp only [Option.filter, hdue, if_true, Option.toList_some, List.flatMap_singleton]
        exact recordsOf_emit (h k st hst)
      · simp [Option.filter, hdue]

/-- An observation at one key. -/
theorem handle_key (h : WellKeyed map) (k : EntryKey) (obs : EntryObservation) (now : Instant) :
    WellKeyed (map.handle cfg obs now).1 ∧
      (map.handle cfg obs now).1.lookup k =
        ((keyMachine cfg k).step (map.lookup k) (.observe obs now)).1 ∧
      recordsOf k (map.handle cfg obs now).2 =
        ((keyMachine cfg k).step (map.lookup k) (.observe obs now)).2 := by
  have hput := MatchState.Of.put (h (entryKey obs)) rfl now
  unfold Correlator.handle keyMachine
  dsimp only
  generalize hst : ((map.lookup (entryKey obs)).getD { insertedAt := now }).put obs = st at *
  by_cases hk : entryKey obs = k
  · subst hk
    rw [if_pos rfl, hst]
    split
    · exact ⟨h.erase _, AList.lookup_erase .., recordsOf_emit hput⟩
    · exact ⟨h.insert hput, AList.lookup_insert .., rfl⟩
  · rw [if_neg hk]
    split
    · exact ⟨h.erase _, AList.lookup_erase_ne (Ne.symm hk), recordsOf_emit_other hput hk⟩
    · exact ⟨h.insert hput, AList.lookup_insert_ne (Ne.symm hk), rfl⟩

theorem correlator_shows (cfg : CorrelatorConfig) (k : EntryKey) :
    (correlator cfg).Shows (keyMachine cfg k) (fun map t => WellKeyed map ∧ map.lookup k = t) some
      (ofKey? k) id where
  skip _ _ _ hi := by cases hi
  serve map t i j hi h := by
    obtain rfl := Option.some.inj hi
    obtain ⟨hkeyed, rfl⟩ := h
    rw [List.map_id]
    cases i with
    | observe obs now =>
      obtain ⟨hnext, hlookup, hout⟩ := handle_key hkeyed k obs now
      exact ⟨⟨hnext, hlookup⟩, hout⟩
    | sweep now =>
      obtain ⟨hnext, hlookup, hout⟩ := sweep_key hkeyed k now cfg.deadline
      exact ⟨⟨hnext, hlookup⟩, hout⟩

/-- The records of a key are those of its own machine, with the one still held at the end. -/
theorem recordsOf_runLoop (cfg : CorrelatorConfig) (k : EntryKey) (is : List Input)
    (now : Instant) : recordsOf k (runLoop cfg is now) = ((keyMachine cfg k).run none is).2 ++
      ((keyMachine cfg k).run none is).1.toList.flatMap (MatchState.emit · cfg) := by
  have hempty : WellKeyed ∅ := fun _ _ hst => by cases hst
  obtain ⟨⟨hkeyed, hlookup⟩, hout⟩ := (correlator_shows cfg k).run ⟨hempty, rfl⟩ is
  rw [List.filterMap_some] at hlookup hout
  rw [List.map_id] at hout
  have hdue : ∀ st : MatchState, st.due now 0 = true := fun st => decide_eq_true (Nat.zero_le _)
  unfold runLoop
  rw [recordsOf_append, (sweep_key hkeyed k now 0).2.2, hlookup]
  refine congrArg₂ (· ++ ·) hout ?_
  have hnone : AList.lookup k (∅ : Correlator) = none := rfl
  rw [hnone]
  cases ((keyMachine cfg k).run none is).1 <;> simp [Option.filter, hdue]

/-! ## One life of a key -/

/-- The state of a key that was first inserted at `t`. -/
def opened (k : EntryKey) (is : List Input) : Option MatchState :=
  (firstSeen k is).map fun t =>
    { yellowstone := (observed .yellowstone k is).getLast?
      shredstream := (observed .shredStream k is).getLast?
      insertedAt := t }

end

section

variable {cfg : CorrelatorConfig} {k : EntryKey} {is pre : List Input} {i : Input}
  {obs : EntryObservation} {now : Instant} {src : SourceKind}

theorem observed_snoc (src : SourceKind) (k : EntryKey) (is : List Input) (i : Input) :
    observed src k (is ++ [i]) = observed src k is ++ observed src k [i] := by
  simp [observed]

theorem observed_skip (h : i.observation? k = none) : observed src k (is ++ [i]) = observed src k is := by
  rw [observed_snoc]
  simp [observed, h]

theorem firstSeen_skip (h : i.observation? k = none) : firstSeen k (is ++ [i]) = firstSeen k is := by
  unfold firstSeen
  rw [List.findSome?_append]
  cases i with
  | observe obs now =>
    have hk : entryKey obs ≠ k := by
      intro hk
      simp [Input.observation?, hk] at h
    simp [hk]
  | sweep now => simp

theorem firstSeen_observe (hk : entryKey obs = k) :
    firstSeen k (is ++ [.observe obs now]) = some ((firstSeen k is).getD now) := by
  unfold firstSeen
  rw [List.findSome?_append]
  cases is.findSome? _ <;> simp [hk]

theorem swept_snoc : Swept cfg k (is ++ [i]) ↔ Swept cfg k is ∨ sweeps cfg k is i :=
  SomeSplit.snoc_iff

theorem observed_of_unseen (src : SourceKind) (h : firstSeen k is = none) :
    observed src k is = [] := by
  unfold observed
  rw [List.filterMap_eq_nil_iff.mpr, List.filter_nil]
  intro i hi
  have hnone := List.findSome?_eq_none_iff.mp h i hi
  cases i with
  | observe obs now =>
    by_cases hk : entryKey obs = k
    · simp [hk] at hnone
    · simp [Input.observation?, hk]
  | sweep now => rfl

theorem observed_observe (hk : entryKey obs = k) : observed src k (is ++ [.observe obs now]) =
    observed src k is ++ if obs.source = src then [obs] else [] := by
  rw [observed_snoc]
  by_cases hsrc : obs.source = src <;> simp [observed, Input.observation?, hk, hsrc]

theorem opened_skip (h : i.observation? k = none) : opened k (is ++ [i]) = opened k is := by
  unfold opened
  rw [firstSeen_skip h, observed_skip h, observed_skip h]

/-- An observation goes into the state of the key. -/
theorem opened_observe (hk : entryKey obs = k) (is : List Input) (now : Instant) :
    opened k (is ++ [.observe obs now]) = some (((opened k is).getD { insertedAt := now }).put obs) := by
  unfold opened
  rw [firstSeen_observe hk, observed_observe hk, observed_observe hk]
  cases hseen : firstSeen k is with
  | none =>
    rw [observed_of_unseen _ hseen, observed_of_unseen _ hseen]
    cases hsrc : obs.source <;> simp [MatchState.put, hsrc]
  | some t => cases hsrc : obs.source <;> simp [MatchState.put, hsrc]

/-- It is paired when both sources were observed. -/
theorem paired_opened {st : MatchState} (h : opened k is = some st) :
    st.paired ↔ observed .yellowstone k is ≠ [] ∧ observed .shredStream k is ≠ [] := by
  obtain ⟨t, -, rfl⟩ := Option.map_eq_some_iff.mp h
  simp [MatchState.paired]

theorem due_opened {st : MatchState} (h : opened k is = some st) (now : Instant) :
    st.due now cfg.deadline = sweeps cfg k is (.sweep now) := by
  obtain ⟨t, ht, rfl⟩ := Option.map_eq_some_iff.mp h
  simp [MatchState.due, sweeps, ht]

theorem closed_mono (h : Closed cfg k is) : Closed cfg k (is ++ [i]) := by
  rcases h with ⟨hys, hss⟩ | hswept
  · rw [Closed, observed_snoc, observed_snoc]
    exact Or.inl ⟨List.append_ne_nil_of_left_ne_nil hys _, List.append_ne_nil_of_left_ne_nil hss _⟩
  · exact Or.inr (swept_snoc.mpr (Or.inl hswept))

theorem closed_skip (h : i.observation? k = none) :
    Closed cfg k (is ++ [i]) ↔ Closed cfg k is ∨ sweeps cfg k is i := by
  rw [Closed, observed_skip h, observed_skip h, swept_snoc, ← or_assoc]
  rfl

/-- The record of the key as it stands. -/
def standing (cfg : CorrelatorConfig) (k : EntryKey) (is : List Input) : List DiffRecord :=
  (opened k is).toList.flatMap (MatchState.emit · cfg)

/-- The key is open, or its record was made when it was due. -/
def InLife (cfg : CorrelatorConfig) (k : EntryKey) (is : List Input)
    (r : Option MatchState × List DiffRecord) : Prop :=
  ¬Closed cfg k is ∧ r = (opened k is, []) ∨ Closed cfg k is ∧ r = (none, standing cfg k is)

theorem inLife_observe (hk : entryKey obs = k) (hopen : ¬Closed cfg k is) :
    InLife cfg k (is ++ [.observe obs now])
      ((keyMachine cfg k).step (opened k is) (.observe obs now)) := by
  have hput := opened_observe hk is now
  have hpaired := paired_opened hput
  have hclosed : Closed cfg k (is ++ [.observe obs now]) ↔
      (((opened k is).getD { insertedAt := now }).put obs).paired := by
    rw [hpaired, Closed, swept_snoc]
    refine or_iff_left fun hswept => hopen (Or.inr ?_)
    simpa [sweeps] using hswept
  unfold keyMachine
  dsimp only
  rw [if_pos hk]
  by_cases hp : (((opened k is).getD { insertedAt := now }).put obs).paired = true
  · rw [if_pos hp]
    refine Or.inr ⟨hclosed.mpr hp, ?_⟩
    unfold standing
    rw [hput]
    simp
  · rw [if_neg hp]
    exact Or.inl ⟨fun hc => hp (hclosed.mp hc), by rw [hput]⟩

theorem inLife_sweep (hopen : ¬Closed cfg k is) : InLife cfg k (is ++ [.sweep now])
    ((keyMachine cfg k).step (opened k is) (.sweep now)) := by
  have hskip : (Input.sweep now).observation? k = none := rfl
  have hclosed := @closed_skip cfg k is _ hskip
  have hsame := @opened_skip k is _ hskip
  unfold InLife standing keyMachine
  rw [hclosed, hsame]
  dsimp only
  cases hst : opened k is with
  | none =>
    have hnone : firstSeen k is = none := Option.map_eq_none_iff.mp hst
    exact Or.inl ⟨by simp [hopen, sweeps, hnone], rfl⟩
  | some st =>
    rw [← due_opened hst now]
    cases hdue : st.due now cfg.deadline
    · exact Or.inl ⟨by simp [hopen], by simp [Option.filter, hdue]⟩
    · exact Or.inr ⟨by simp, by simp [Option.filter, hdue]⟩

/-- As long as nothing comes late the key lives once. -/
theorem inLife_run (h : NoneLate cfg k is) : InLife cfg k is ((keyMachine cfg k).run none is) := by
  induction is using List.reverseRecOn with
  | nil =>
    refine Or.inl ⟨?_, rfl⟩
    rintro (⟨hys, -⟩ | hswept)
    · exact hys rfl
    · exact SomeSplit.not_nil hswept
  | append_singleton is i ih =>
    obtain ⟨his, hi⟩ := EverySplit.snoc_iff.mp h
    rw [EventMachine.run_snoc]
    rcases ih his with ⟨hopen, hr⟩ | ⟨hclosed, hr⟩
    · rw [hr, List.nil_append]
      cases i with
      | observe obs now =>
        by_cases hk : entryKey obs = k
        · exact inLife_observe hk hopen
        · have hskip : (Input.observe obs now).observation? k = none := if_neg hk
          refine Or.inl ⟨?_, ?_⟩
          · rw [closed_skip hskip]
            simp [hopen, sweeps]
          · rw [opened_skip hskip]
            simp [keyMachine, hk]
      | sweep now => exact inLife_sweep hopen
    · have hskip : i.observation? k = none := by
        by_contra hne
        exact hi hne hclosed
      rw [hr]
      refine Or.inr ⟨closed_mono hclosed, ?_⟩
      unfold standing
      rw [opened_skip hskip]
      cases i with
      | observe obs now =>
        have hk : entryKey obs ≠ k := by
          intro hk
          simp [Input.observation?, hk] at hskip
        simp [keyMachine, hk]
      | sweep now => simp [keyMachine]

/-! ## A second life -/

theorem entryKey_of_observed (h : obs ∈ observed src k is) : entryKey obs = k := by
  obtain ⟨i, -, hi⟩ := List.mem_filterMap.mp (List.mem_filter.mp h).1
  cases i with
  | observe obs' now =>
    by_cases hk : entryKey obs' = k
    · obtain rfl : obs' = obs := by simpa [Input.observation?, hk] using hi
      exact hk
    · simp [Input.observation?, hk] at hi
  | sweep now => cases hi

/-- A key that was seen was observed by a source. -/
theorem observed_of_seen {t : Instant} (h : firstSeen k is = some t) :
    ∃ src, observed src k is ≠ [] := by
  obtain ⟨before, i, after, rfl, hi, -⟩ := List.findSome?_eq_some_iff.mp h
  cases i with
  | observe obs now =>
    have hk : entryKey obs = k := by
      by_contra hk
      simp [hk] at hi
    refine ⟨obs.source, List.ne_nil_of_mem (List.mem_filter.mpr
      ⟨List.mem_filterMap.mpr ⟨.observe obs now, by simp, if_pos hk⟩, by simp⟩)⟩
  | sweep now => simp at hi

theorem of_opened {st : MatchState} (h : opened k is = some st) : st.Of k := by
  obtain ⟨t, ht, rfl⟩ := Option.map_eq_some_iff.mp h
  refine ⟨fun o ho => entryKey_of_observed (List.mem_of_getLast? ho),
    fun o ho => entryKey_of_observed (List.mem_of_getLast? ho), fun hnone => ?_⟩
  obtain ⟨hys, hss⟩ := Option.or_eq_none_iff.mp hnone
  obtain ⟨src, hsrc⟩ := observed_of_seen ht
  cases src with
  | yellowstone => exact hsrc (List.getLast?_eq_none_iff.mp hys)
  | shredStream => exact hsrc (List.getLast?_eq_none_iff.mp hss)

theorem seen_of_closed (h : Closed cfg k is) : opened k is ≠ none := by
  intro hnone
  have hunseen : firstSeen k is = none := Option.map_eq_none_iff.mp hnone
  rcases h with ⟨hys, -⟩ | ⟨pre, i, post, rfl, hi⟩
  · exact hys (observed_of_unseen _ hunseen)
  · unfold firstSeen at hunseen
    rw [List.findSome?_append, Option.or_eq_none_iff] at hunseen
    cases i with
    | observe obs now => cases hi
    | sweep now =>
      have hpre : firstSeen k pre = none := hunseen.1
      simp [sweeps, hpre] at hi

/-- The records made, and the one that is still to come. -/
def lives (r : Option MatchState × List DiffRecord) : ℕ := r.2.length + r.1.toList.length

theorem lives_step (cfg : CorrelatorConfig) {t : Option MatchState} (h : ∀ st ∈ t, st.Of k)
    (i : Input) :
    (∀ st ∈ ((keyMachine cfg k).step t i).1, st.Of k) ∧
      t.toList.length ≤ lives ((keyMachine cfg k).step t i) := by
  cases i with
  | observe obs now =>
    by_cases hk : entryKey obs = k
    · have hput := MatchState.Of.put h hk now
      obtain ⟨r, hr, -⟩ := hput.emit cfg
      simp only [keyMachine, if_pos hk, lives]
      split
      · refine ⟨fun st hst => (by cases hst), ?_⟩
        rw [hr]
        cases t <;> simp
      · refine ⟨fun st hst => ?_, ?_⟩
        · rw [← Option.some.inj hst]
          exact hput
        · cases t <;> simp
    · simp only [keyMachine, if_neg hk, lives]
      exact ⟨h, Nat.le_add_left _ _⟩
  | sweep now =>
    refine ⟨fun st hst => h st (Option.eq_some_of_filter_eq_some hst), ?_⟩
    cases t with
    | none => exact Nat.zero_le _
    | some st =>
      obtain ⟨r, hr, -⟩ := (h st rfl).emit cfg
      cases hdue : st.due now cfg.deadline <;>
        simp [keyMachine, lives, Option.filter, hdue, hr]

theorem of_run (cfg : CorrelatorConfig) (k : EntryKey) (is : List Input) :
    ∀ st ∈ ((keyMachine cfg k).run none is).1, st.Of k :=
  (keyMachine cfg k).run_invariant (fun t => ∀ st ∈ t, st.Of k) (fun _ hst => by cases hst)
    (fun _ i h => (lives_step cfg h i).1) is

theorem lives_snoc (is : List Input) (i : Input) : lives ((keyMachine cfg k).run none (is ++ [i])) =
    ((keyMachine cfg k).run none is).2.length +
      lives ((keyMachine cfg k).step ((keyMachine cfg k).run none is).1 i) := by
  unfold lives
  rw [EventMachine.run_snoc, List.length_append]
  exact Nat.add_assoc _ _ _

/-- What comes late opens the key again. -/
theorem lives_of_late (h : ¬NoneLate cfg k is) : 2 ≤ lives ((keyMachine cfg k).run none is) := by
  induction is using List.reverseRecOn with
  | nil => exact absurd EverySplit.nil h
  | append_singleton is i ih =>
    rw [lives_snoc]
    by_cases his : NoneLate cfg k is
    · have hi : i.observation? k ≠ none ∧ Closed cfg k is := by
        by_contra hnot
        exact h (EverySplit.snoc his fun hne hclosed => hnot ⟨hne, hclosed⟩)
      rcases inLife_run his with ⟨hopen, -⟩ | ⟨hclosed, hr⟩
      · exact absurd hi.2 hopen
      · obtain ⟨st, hst⟩ := Option.ne_none_iff_exists'.mp (seen_of_closed hclosed)
        obtain ⟨r, hone, -⟩ := (of_opened hst).emit cfg
        rw [hr, standing, hst]
        cases i with
        | observe obs now =>
          have hk : entryKey obs = k := by
            by_contra hk
            exact hi.1 (if_neg hk)
          -- a single source does not pair a fresh state
          have hfresh : ((⟨none, none, now⟩ : MatchState).put obs).paired = false := by
            cases hsrc : obs.source <;> simp [MatchState.put, MatchState.paired, hsrc]
          simp [keyMachine, lives, hk, hfresh, hone]
        | sweep now => exact absurd rfl hi.1
    · have hold := ih his
      have hnext := (lives_step cfg (of_run cfg k is) i).2
      unfold lives at hold
      omega

/-! ## The records of a run -/

theorem length_recordsOf (cfg : CorrelatorConfig) (k : EntryKey) (is : List Input) (now : Instant) :
    (recordsOf k (runLoop cfg is now)).length = lives ((keyMachine cfg k).run none is) := by
  rw [recordsOf_runLoop, List.length_append, lives]
  refine congrArg₂ (· + ·) rfl ?_
  have hof := of_run cfg k is
  cases hst : ((keyMachine cfg k).run none is).1 with
  | none => rfl
  | some st =>
    obtain ⟨r, hr, -⟩ := (hof st hst).emit cfg
    simp [hr]

/-- Where nothing comes late the only record is that of all that was observed. -/
theorem recordsOf_standing (h : NoneLate cfg k is) (now : Instant) :
    recordsOf k (runLoop cfg is now) = standing cfg k is := by
  rw [recordsOf_runLoop]
  rcases inLife_run h with ⟨-, hr⟩ | ⟨-, hr⟩
  · rw [hr]
    rfl
  · rw [hr]
    exact List.append_nil _

theorem delivered_iff (h : NoneLate cfg k is) (src : SourceKind) :
    Delivered cfg src k is ↔ observed src k is ≠ [] := by
  constructor
  · rintro ⟨pre, i, post, rfl, hi, -⟩
    have hsplit : pre ++ i :: post = pre ++ [i] ++ post := by simp
    unfold observed at hi ⊢
    rw [hsplit, List.filterMap_append, List.filterMap_append, List.filter_append, List.filter_append]
    exact List.append_ne_nil_of_left_ne_nil (List.append_ne_nil_of_right_ne_nil _ hi) _
  · intro hne
    obtain ⟨obs, hin⟩ := List.exists_mem_of_ne_nil _ hne
    obtain ⟨hmem, hsrc⟩ := List.mem_filter.mp hin
    obtain ⟨i, hi, hobs⟩ := List.mem_filterMap.mp hmem
    obtain ⟨pre, post, rfl⟩ := List.append_of_mem hi
    refine ⟨pre, i, post, rfl, ?_, fun hswept => ?_⟩
    · refine List.ne_nil_of_mem (List.mem_filter.mpr ⟨List.mem_filterMap.mpr ⟨i, by simp, hobs⟩, hsrc⟩)
    · exact h pre i post rfl (by simp [hobs]) (Or.inr hswept)

theorem source_opened {st : MatchState} (h : opened k is = some st) :
    st.source = .both ↔ observed .yellowstone k is ≠ [] ∧ observed .shredStream k is ≠ [] := by
  rw [← paired_opened h]
  unfold MatchState.source MatchState.paired
  cases st.yellowstone <;> cases st.shredstream <;> simp

end

/-- A key has one record, with the right source and the times of the first observations, iff
nothing of it comes after the record is due and repeated observations have the same times. -/
theorem oneRecord_iff (cfg : CorrelatorConfig) (is : List Input) (now : Instant) (k : EntryKey) :
    OneRecord cfg k is (runLoop cfg is now) ↔ OneLife cfg k is := by
  by_cases hlate : NoneLate cfg k is
  · have hrecords := recordsOf_standing hlate now
    have hboth := and_congr (delivered_iff hlate .yellowstone) (delivered_iff hlate .shredStream)
    unfold standing at hrecords
    cases hst : opened k is with
    | none =>
      -- a key that was never seen
      have hunseen : firstSeen k is = none := Option.map_eq_none_iff.mp hst
      have hys := observed_of_unseen .yellowstone hunseen
      have hss := observed_of_unseen .shredStream hunseen
      have hnil : recordsOf k (runLoop cfg is now) = [] := by rw [hrecords, hst]; rfl
      refine ⟨fun _ => ⟨hlate, by simp [hys], by simp [hss], by simp [hss]⟩, fun _ => ?_⟩
      constructor <;> simp [hnil]
    | some st =>
      obtain ⟨r, hr, -⟩ := (of_opened hst).emit cfg
      obtain ⟨first, -, hrecord⟩ : ∃ first, first ∈ st.yellowstone.or st.shredstream ∧
          r = st.record cfg first := by
        unfold MatchState.emit at hr
        cases hfirst : st.yellowstone.or st.shredstream with
        | none => simp [hfirst] at hr
        | some first => exact ⟨first, rfl, by simpa [hfirst] using hr.symm⟩
      have hsource := (source_opened hst).trans hboth.symm
      obtain ⟨t, -, rfl⟩ := Option.map_eq_some_iff.mp hst
      have hone : recordsOf k (runLoop cfg is now) = [r] := by simpa [hst, hr] using hrecords
      subst hrecord
      constructor
      · intro h
        have hmem : ∀ {r'}, r' = _ → r' ∈ recordsOf k (runLoop cfg is now) := fun heq => by
          rw [hone, heq]
          exact List.mem_singleton_self _
        exact ⟨hlate, h.ysObserved _ (hmem rfl), h.ssFirstShred _ (hmem rfl),
          h.ssFecComplete _ (hmem rfl)⟩
      · intro h
        constructor
        · rw [hone]
          exact Nat.le_refl 1
        all_goals
          intro r' hr'
          rw [hone] at hr'
          obtain rfl := List.mem_singleton.mp hr'
        · exact hsource
        · exact h.ysObserved
        · exact h.ssFirstShred
        · exact h.ssFecComplete
  · refine ⟨fun h => absurd h.once ?_, fun h => absurd h.noneLate hlate⟩
    rw [length_recordsOf]
    have htwo := lives_of_late hlate
    omega

/-- Yellowstone delivers an entry again after it was paired: it has a second record. -/
theorem duplicate_recorded_again : ¬∀ (cfg : CorrelatorConfig) (is : List Input) (now : Instant)
    (k : EntryKey), OneRecord cfg k is (runLoop cfg is now) := by
  intro h
  let obs (src : SourceKind) (t : Instant) : EntryObservation := ⟨src, t, 7, 0, 12500, 1, 0, [], none, none⟩
  have htwice := (h ⟨0, 1000, fun _ => none⟩ [.observe (obs .yellowstone 1) 1,
    .observe (obs .shredStream 2) 2, .observe (obs .yellowstone 3) 3] 4 (7, 1)).once
  revert htwice
  decide +kernel

end SolanaBench.EntryComparator
