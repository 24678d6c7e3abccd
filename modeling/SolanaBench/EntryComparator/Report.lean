import SolanaBench.EntryComparator.CorrelatorRecords
import SolanaBench.EntryComparator.Writer
import SolanaBench.Lib.AListWeight

/-! The report over the file of a run. Every observation is in a row that the report counts, or
it was replaced by another one of its source before its key was recorded. -/
namespace SolanaBench.EntryComparator

/-- The samples of the two histograms, as they are recorded. -/
structure SignedHist where
  earlierCount : ℕ := 0
  laterCount : ℕ := 0
  equalCount : ℕ := 0
  earlierAbs : List ℕ := []
  later : List ℕ := []
  deriving DecidableEq, Repr

def SignedHist.record (h : SignedHist) (ssNs ysNs : ℕ) : SignedHist :=
  if ssNs < ysNs then
    { h with earlierCount := h.earlierCount + 1, earlierAbs := h.earlierAbs ++ [ysNs - ssNs] }
  else if ssNs > ysNs then
    { h with laterCount := h.laterCount + 1, later := h.later ++ [ssNs - ysNs] }
  else { h with equalCount := h.equalCount + 1 }

def SignedHist.recordSome (h : SignedHist) : Option ℕ → Option ℕ → SignedHist
  | some ssNs, some ysNs => h.record ssNs ysNs
  | _, _ => h

def SignedHist.samples (h : SignedHist) : ℕ := h.earlierCount + h.laterCount + h.equalCount

structure Report where
  total : ℕ := 0
  both : ℕ := 0
  ysOnly : ℕ := 0
  ssOnly : ℕ := 0
  hashMismatches : ℕ := 0
  sigMismatches : ℕ := 0
  hFirst : SignedHist := {}
  hFec : SignedHist := {}
  hDecode : List ℕ := []
  deriving DecidableEq, Repr

/-- A row of both sources. -/
def Report.addBoth (rep : Report) (r : DiffRecord) : Report :=
  { rep with
    both := rep.both + 1
    hashMismatches := rep.hashMismatches + if r.hashMatch then 0 else 1
    sigMismatches := rep.sigMismatches + if r.sigSetMatch = some false then 1 else 0
    hFirst := rep.hFirst.recordSome r.ssFirstShredNs r.ysObservedNs
    hFec := rep.hFec.recordSome r.ssFecCompleteNs r.ysObservedNs
    hDecode :=
      match r.ssFirstShredNs, r.ssFecCompleteNs with
      | some fs, some fc => if fc ≥ fs then rep.hDecode ++ [fc - fs] else rep.hDecode
      | _, _ => rep.hDecode }

def Report.add (rep : Report) (r : DiffRecord) : Report :=
  let rep := { rep with total := rep.total + 1 }
  match r.source with
  | .both => rep.addBoth r
  | .ysOnly => { rep with ysOnly := rep.ysOnly + 1 }
  | .ssOnly => { rep with ssOnly := rep.ssOnly + 1 }

/-- `generate`, up to the layout of the text and the quantiles. -/
def generate (rows : List DiffRecord) : Report := rows.foldl Report.add {}

/-! ## Counting rows -/

def ofSource (src : Source) (r : DiffRecord) : Bool := decide (r.source = src)

/-- What the report says of any file. -/
structure Counted (rows : List DiffRecord) (rep : Report) : Prop where
  total : rep.total = rep.both + rep.ysOnly + rep.ssOnly
  both : rep.both = rows.countP (ofSource .both)
  ysOnly : rep.ysOnly = rows.countP (ofSource .ysOnly)
  ssOnly : rep.ssOnly = rows.countP (ofSource .ssOnly)
  hashMismatches : rep.hashMismatches = rows.countP fun r => ofSource .both r && !r.hashMatch
  first : rep.hFirst.samples = rows.countP fun r =>
    ofSource .both r && r.ssFirstShredNs.isSome && r.ysObservedNs.isSome
  fec : rep.hFec.samples = rows.countP fun r =>
    ofSource .both r && r.ssFecCompleteNs.isSome && r.ysObservedNs.isSome

theorem samples_record (h : SignedHist) (ssNs ysNs : ℕ) :
    (h.record ssNs ysNs).samples = h.samples + 1 := by
  unfold SignedHist.record SignedHist.samples
  split
  · dsimp only
    omega
  · split
    · dsimp only
      omega
    · dsimp only
      omega

theorem samples_recordSome (h : SignedHist) (ss ys : Option ℕ) :
    (h.recordSome ss ys).samples = h.samples + if ss.isSome && ys.isSome then 1 else 0 := by
  cases ss with
  | none => rfl
  | some ssNs =>
    cases ys with
    | none => rfl
    | some ysNs => exact samples_record h ssNs ysNs

theorem generate_snoc (rows : List DiffRecord) (r : DiffRecord) :
    generate (rows ++ [r]) = (generate rows).add r := by
  simp [generate]

/-- A number of the report that goes up by one with every row of a kind counts these rows. -/
theorem generate_counts {f : Report → ℕ} {p : DiffRecord → Bool} (hstart : f {} = 0)
    (hadd : ∀ rep r, f (rep.add r) = f rep + if p r then 1 else 0) (rows : List DiffRecord) :
    f (generate rows) = rows.countP p := by
  induction rows using List.reverseRecOn with
  | nil => exact hstart
  | append_singleton rows r ih =>
    rw [generate_snoc, hadd, ih, List.countP_append, List.countP_singleton]

theorem counted_generate (rows : List DiffRecord) : Counted rows (generate rows) where
  total := by
    have htotal : ∀ rep : Report, ∀ r, rep.total = rep.both + rep.ysOnly + rep.ssOnly →
        (rep.add r).total = (rep.add r).both + (rep.add r).ysOnly + (rep.add r).ssOnly := by
      intro rep r h
      cases hsrc : r.source <;> simp only [Report.add, Report.addBoth, hsrc] <;> omega
    induction rows using List.reverseRecOn with
    | nil => rfl
    | append_singleton rows r ih =>
      rw [generate_snoc]
      exact htotal _ r ih
  both := generate_counts rfl (fun rep r => by
    cases hsrc : r.source <;> simp [Report.add, Report.addBoth, ofSource, hsrc]) rows
  ysOnly := generate_counts rfl (fun rep r => by
    cases hsrc : r.source <;> simp [Report.add, Report.addBoth, ofSource, hsrc]) rows
  ssOnly := generate_counts rfl (fun rep r => by
    cases hsrc : r.source <;> simp [Report.add, Report.addBoth, ofSource, hsrc]) rows
  hashMismatches := generate_counts rfl (fun rep r => by
    cases hsrc : r.source <;> cases hm : r.hashMatch <;>
      simp [Report.add, Report.addBoth, ofSource, hsrc, hm]) rows
  first := generate_counts (f := fun rep => rep.hFirst.samples) rfl (fun rep r => by
    cases hsrc : r.source <;>
      simp [Report.add, Report.addBoth, ofSource, hsrc, samples_recordSome]) rows
  fec := generate_counts (f := fun rep => rep.hFec.samples) rfl (fun rep r => by
    cases hsrc : r.source <;>
      simp [Report.add, Report.addBoth, ofSource, hsrc, samples_recordSome]) rows

/-! ## Where the observations go -/

def MatchState.ofSource (st : MatchState) : SourceKind → Option EntryObservation
  | .yellowstone => st.yellowstone
  | .shredStream => st.shredstream

/-- The row tells of an observation by `src`. -/
def tellsOf (src : SourceKind) (r : DiffRecord) : Bool :=
  match src with
  | .yellowstone => ofSource .both r || ofSource .ysOnly r
  | .shredStream => ofSource .both r || ofSource .ssOnly r

/-- The observations by `src` that the correlator holds. -/
def held (src : SourceKind) (map : Correlator) : ℕ :=
  AList.weight (fun _ st => if (st.ofSource src).isSome then 1 else 0) map

def isFrom (src : SourceKind) : Input → Bool
  | .observe obs _ => decide (obs.source = src)
  | .sweep _ => false

/-- The observation replaces an earlier one of its source that waits for the other source. -/
def repeats (src : SourceKind) (map : Correlator) : Input → Bool
  | .observe obs _ => decide (obs.source = src) &&
      (((map.lookup (entryKey obs)).bind fun st => st.ofSource src).isSome)
  | .sweep _ => false

def repeatedBy (cfg : CorrelatorConfig) (src : SourceKind) (is : List Input) : ℕ :=
  ((correlator cfg).readings (fun map i => if repeats src map i then [()] else []) ∅ is).length

section

variable {cfg : CorrelatorConfig} {src : SourceKind} {map : Correlator} {st : MatchState}

theorem ofSource_put (st : MatchState) (obs : EntryObservation) (src : SourceKind) :
    (st.put obs).ofSource src = if obs.source = src then some obs else st.ofSource src := by
  unfold MatchState.put MatchState.ofSource
  cases hsrc : obs.source <;> cases src <;> simp

/-- The record of a state tells of the sources it has. -/
theorem countP_emit (cfg : CorrelatorConfig) (st : MatchState) (src : SourceKind) :
    (st.emit cfg).countP (tellsOf src) = if (st.ofSource src).isSome then 1 else 0 := by
  obtain ⟨ys, ss, t⟩ := st
  cases ys <;> cases ss <;> cases src <;>
    simp [MatchState.emit, MatchState.record, MatchState.source, MatchState.ofSource, tellsOf,
      EntryComparator.ofSource]

theorem paired_iff (st : MatchState) : st.paired = true ↔ ∀ src, (st.ofSource src).isSome := by
  unfold MatchState.paired MatchState.ofSource
  rw [Bool.and_eq_true]
  constructor
  · rintro ⟨hys, hss⟩ src
    cases src
    · exact hys
    · exact hss
  · exact fun h => ⟨h .yellowstone, h .shredStream⟩

/-- The state of the key before an observation. -/
def MatchState.before (map : Correlator) (obs : EntryObservation) (now : Instant) : MatchState :=
  (map.lookup (entryKey obs)).getD { insertedAt := now }

theorem weightOf_before (src : SourceKind) (map : Correlator) (obs : EntryObservation)
    (now : Instant) :
    AList.weightOf (fun _ st => if (st.ofSource src).isSome then 1 else 0) map (entryKey obs) =
      if ((MatchState.before map obs now).ofSource src).isSome then 1 else 0 := by
  unfold AList.weightOf MatchState.before
  cases map.lookup (entryKey obs) with
  | none => cases src <;> rfl
  | some st => rfl

theorem repeats_observe (src : SourceKind) (map : Correlator) (obs : EntryObservation)
    (now : Instant) : repeats src map (.observe obs now) = (decide (obs.source = src) &&
      ((MatchState.before map obs now).ofSource src).isSome) := by
  unfold repeats MatchState.before
  dsimp only
  cases map.lookup (entryKey obs) with
  | none => cases src <;> rfl
  | some st => rfl

/-- An observation is recorded, held, or takes the place of one that was held. -/
theorem handle_conserves (cfg : CorrelatorConfig) (src : SourceKind) (map : Correlator)
    (obs : EntryObservation) (now : Instant) :
    (if isFrom src (.observe obs now) then 1 else 0) + held src map =
      (map.handle cfg obs now).2.countP (tellsOf src) + held src (map.handle cfg obs now).1 +
        if repeats src map (.observe obs now) then 1 else 0 := by
  have hold := weightOf_before src map obs now
  have hhandle : map.handle cfg obs now =
      if ((MatchState.before map obs now).put obs).paired then
        (map.erase (entryKey obs), ((MatchState.before map obs now).put obs).emit cfg)
      else (map.insert (entryKey obs) ((MatchState.before map obs now).put obs), []) := rfl
  rw [repeats_observe, hhandle]
  generalize MatchState.before map obs now = st at *
  have hput := ofSource_put st obs src
  unfold held isFrom
  dsimp only
  by_cases hpaired : (st.put obs).paired = true
  · have hsome := (paired_iff _).mp hpaired src
    have herase := AList.weight_erase
      (fun _ st => if (st.ofSource src).isSome then 1 else 0) map (entryKey obs)
    rw [hold] at herase
    rw [if_pos hpaired]
    dsimp only
    rw [countP_emit, if_pos hsome]
    rw [hput] at hsome
    by_cases hobs : obs.source = src
    · simp only [hobs, decide_true, Bool.true_and, if_true] at *
      omega
    · rw [if_neg hobs] at hsome
      rw [if_pos hsome] at herase
      simp only [hobs, decide_false, Bool.false_and, if_false, Bool.false_eq_true]
      omega
  · have hinsert := AList.weight_insert
      (fun _ st => if (st.ofSource src).isSome then 1 else 0) map (entryKey obs) (st.put obs)
    rw [hold, hput] at hinsert
    rw [if_neg hpaired]
    dsimp only
    rw [List.countP_nil]
    by_cases hobs : obs.source = src
    · simp only [hobs, decide_true, Bool.true_and, if_true, Option.isSome_some] at *
      omega
    · simp only [hobs, decide_false, Bool.false_and, if_false, Bool.false_eq_true] at *
      omega

/-- A sweep records what it lets go. -/
theorem sweep_conserves (cfg : CorrelatorConfig) (src : SourceKind) (map : Correlator)
    (now : Instant) (deadline : Duration) :
    held src map = (map.sweep cfg now deadline).2.countP (tellsOf src) +
      held src (map.sweep cfg now deadline).1 := by
  unfold held AList.weight Correlator.sweep AList.retain
  dsimp only
  induction map.entries with
  | nil => rfl
  | cons e es ih =>
    rw [List.map_cons, List.sum_cons, List.flatMap_cons, List.countP_append, List.filter_cons, ih]
    cases hdue : e.2.due now deadline with
    | true =>
      simp only [if_true, Bool.not_true, Bool.false_eq_true, if_false, countP_emit]
      omega
    | false =>
      simp only [Bool.false_eq_true, if_false, Bool.not_false, if_true, List.countP_nil,
        List.map_cons, List.sum_cons]
      omega

/-- Every observation of a run is in a record or was replaced by a later one of its source. -/
theorem observations_recorded (cfg : CorrelatorConfig) (src : SourceKind) (is : List Input)
    (now : Instant) :
    is.countP (isFrom src) = (runLoop cfg is now).countP (tellsOf src) + repeatedBy cfg src is := by
  have hrun : is.countP (isFrom src) = ((correlator cfg).run ∅ is).2.countP (tellsOf src) +
      held src ((correlator cfg).run ∅ is).1 + repeatedBy cfg src is := by
    induction is using List.reverseRecOn with
    | nil => rfl
    | append_singleton is i ih =>
      unfold repeatedBy at ih ⊢
      rw [EventMachine.readings_snoc, EventMachine.run_snoc_fst, EventMachine.run_snoc_snd,
        List.countP_append, List.countP_append, List.length_append, ih, List.countP_singleton]
      generalize ((correlator cfg).run ∅ is).1 = map
      cases i with
      | observe obs now =>
        have hstep := handle_conserves cfg src map obs now
        change _ = List.countP _ _ + List.countP _ (map.handle cfg obs now).2 +
          held src (map.handle cfg obs now).1 + _
        cases hrep : repeats src map (.observe obs now) with
        | true =>
          rw [hrep, if_pos rfl] at hstep
          simp only [if_true, List.length_singleton]
          omega
        | false =>
          rw [hrep, if_neg Bool.false_ne_true] at hstep
          simp only [Bool.false_eq_true, if_false, List.length_nil]
          omega
      | sweep now =>
        have hstep := sweep_conserves cfg src map now cfg.deadline
        change _ = List.countP _ _ + List.countP _ (map.sweep cfg now cfg.deadline).2 +
          held src (map.sweep cfg now cfg.deadline).1 + _
        simp only [isFrom, repeats, Bool.false_eq_true, if_false, List.length_nil]
        omega
  have hlast := sweep_conserves cfg src ((correlator cfg).run ∅ is).1 now 0
  have hempty : held src (((correlator cfg).run ∅ is).1.sweep cfg now 0).1 = 0 := by
    refine AList.weight_eq_zero _ fun k hk => ?_
    obtain ⟨st, hst⟩ := Option.isSome_iff_exists.mp (AList.lookup_isSome.mpr hk)
    have hkept := AList.lookup_retain (fun _ st => !st.due now 0) ((correlator cfg).run ∅ is).1 k
    change ((((correlator cfg).run ∅ is).1.sweep cfg now 0).1).lookup k = _ at hkept
    rw [hst, Eq.comm, Option.filter_eq_some_iff] at hkept
    simp [MatchState.due] at hkept
  unfold runLoop
  dsimp only
  rw [List.countP_append, hrun]
  omega

/-! ## Rows of both sources -/

/-- Both observations of a paired row have its hash, and each its time. -/
structure Sound (r : DiffRecord) : Prop where
  hashMatch : r.source = .both → r.hashMatch = true
  times : r.source = .both → r.ysObservedNs.isSome ∧ r.ssFecCompleteNs.isSome

theorem sound_emit {k : EntryKey} (h : st.Of k) (cfg : CorrelatorConfig) :
    ∀ r ∈ st.emit cfg, Sound r := by
  intro r hr
  obtain ⟨ys, ss, t⟩ := st
  cases ys with
  | none =>
    cases ss with
    | none => exact absurd hr List.not_mem_nil
    | some s =>
      rw [List.mem_singleton.mp hr]
      exact ⟨fun h => (by cases h), fun h => (by cases h)⟩
  | some y =>
    cases ss with
    | none =>
      rw [List.mem_singleton.mp hr]
      exact ⟨fun h => (by cases h), fun h => (by cases h)⟩
    | some s =>
      have hhash : y.entryHash = s.entryHash :=
        congrArg Prod.snd ((h.yellowstone y rfl).trans (h.shredstream s rfl).symm)
      rw [List.mem_singleton.mp hr]
      exact ⟨fun _ => beq_iff_eq.mpr hhash, fun _ => ⟨rfl, rfl⟩⟩

theorem sound_sweep (h : WellKeyed map) (now : Instant) (deadline : Duration) :
    ∀ r ∈ (map.sweep cfg now deadline).2, Sound r := by
  intro r hr
  obtain ⟨e, he, hre⟩ := List.mem_flatMap.mp hr
  split at hre
  · exact sound_emit (h e.1 e.2 (mem_lookup_of_mem he)) cfg r hre
  · exact absurd hre List.not_mem_nil

theorem sound_runLoop (cfg : CorrelatorConfig) (is : List Input) (now : Instant) :
    ∀ r ∈ runLoop cfg is now, Sound r := by
  have hrun : WellKeyed ((correlator cfg).run ∅ is).1 ∧
      ∀ r ∈ ((correlator cfg).run ∅ is).2, Sound r := by
    refine (correlator cfg).run_rule (fun _ map rs => WellKeyed map ∧ ∀ r ∈ rs, Sound r) ∅
      ⟨fun _ _ hst => (by cases hst), fun r hr => absurd hr List.not_mem_nil⟩ ?_ is
    rintro _ map rs i ⟨hkeyed, hrs⟩
    have hstep : WellKeyed ((correlator cfg).step map i).1 ∧
        ∀ r ∈ ((correlator cfg).step map i).2, Sound r := by
      cases i with
      | observe obs now =>
        refine ⟨(handle_key hkeyed (entryKey obs) obs now).1, fun r hr => ?_⟩
        change r ∈ (map.handle cfg obs now).2 at hr
        unfold Correlator.handle at hr
        dsimp only at hr
        split at hr
        · exact sound_emit (MatchState.Of.put (hkeyed (entryKey obs)) rfl now) cfg r hr
        · exact absurd hr List.not_mem_nil
      | sweep now => exact ⟨(sweep_key hkeyed (0, 0) now cfg.deadline).1, sound_sweep hkeyed now _⟩
    refine ⟨hstep.1, fun r hr => ?_⟩
    rcases List.mem_append.mp hr with hr | hr
    · exact hrs r hr
    · exact hstep.2 r hr
  intro r hr
  rcases List.mem_append.mp hr with hr | hr
  · exact hrun.2 r hr
  · exact sound_sweep hrun.1 now 0 r hr

end

/-! ## The report of a run -/

theorem countP_or {α : Type*} {p q : α → Bool} (h : ∀ x, p x = true → q x = false) (l : List α) :
    l.countP (fun x => p x || q x) = l.countP p + l.countP q := by
  induction l with
  | nil => rfl
  | cons x l ih =>
    rw [List.countP_cons, List.countP_cons, List.countP_cons, ih]
    cases hp : p x with
    | true =>
      rw [h x hp]
      simp only [Bool.or_false, if_true, Bool.false_eq_true, if_false]
      omega
    | false =>
      simp only [Bool.false_or, Bool.false_eq_true, if_false]
      omega

theorem ofSource_disjoint {src src' : Source} (hne : src ≠ src') (r : DiffRecord)
    (h : ofSource src r = true) : ofSource src' r = false := by
  have hr : r.source = src := of_decide_eq_true h
  exact decide_eq_false fun hr' => hne (hr.symm.trans hr')

/-- What the report says of the observations. -/
structure Accounts (cfg : CorrelatorConfig) (is : List Input) (rep : Report) : Prop where
  total : rep.total = rep.both + rep.ysOnly + rep.ssOnly
  yellowstone : is.countP (isFrom .yellowstone) =
    rep.both + rep.ysOnly + repeatedBy cfg .yellowstone is
  shredStream : is.countP (isFrom .shredStream) =
    rep.both + rep.ssOnly + repeatedBy cfg .shredStream is
  hashes : rep.hashMismatches = 0
  fec : rep.hFec.samples = rep.both
  first : rep.hFirst.samples ≤ rep.both

/-- From the two sources to the report: with a file that takes every batch, each observation is
counted in a row of its source, unless it was replaced before its key was recorded. -/
theorem report_accounts (cfg : CorrelatorConfig) (is : List Input) (now : Instant)
    (wcfg : Writer.WriterConfig) (start : Instant) (ws : List Writer.Input) (last : Bool)
    (hchannel : Writer.received ws = runLoop cfg is now)
    (hfile : ∀ b ∈ (Writer.runLoop wcfg start ws last).batches, b.2 = true) :
    Accounts cfg is (generate (BatchWriter.written (Writer.runLoop wcfg start ws last))) := by
  obtain ⟨hbatched, hbuffer⟩ := Writer.batched_runLoop wcfg start ws last
  rw [BatchWriter.written_of_accepted hbatched hbuffer hfile, hchannel]
  have hcounted := counted_generate (runLoop cfg is now)
  have hsound := sound_runLoop cfg is now
  have hys := observations_recorded cfg .yellowstone is now
  have hss := observations_recorded cfg .shredStream is now
  refine ⟨hcounted.total, ?_, ?_, ?_, ?_, ?_⟩
  · rw [hys, hcounted.both, hcounted.ysOnly, ← countP_or (ofSource_disjoint (by decide))]
    rfl
  · rw [hss, hcounted.both, hcounted.ssOnly, ← countP_or (ofSource_disjoint (by decide))]
    rfl
  · rw [hcounted.hashMismatches, List.countP_eq_zero]
    intro r hr hmis
    simp only [ofSource, Bool.and_eq_true, decide_eq_true_eq, Bool.not_eq_true'] at hmis
    rw [(hsound r hr).hashMatch hmis.1] at hmis
    exact Bool.false_ne_true hmis.2.symm
  · rw [hcounted.fec, hcounted.both]
    refine List.countP_congr fun r hr => ?_
    constructor
    · intro h
      simp only [Bool.and_eq_true] at h
      exact h.1.1
    · intro h
      have hboth : r.source = .both := of_decide_eq_true h
      obtain ⟨hy, hs⟩ := (hsound r hr).times hboth
      simp [h, hy, hs]
  · rw [hcounted.first, hcounted.both]
    refine List.countP_mono_left fun r _ h => ?_
    simp only [Bool.and_eq_true] at h
    exact h.1.1

/-! One entry of both sources, repeated by Yellowstone before ShredStream has it, and one that
only ShredStream has. -/

def sampleObservation (source : SourceKind) (t : Instant) (hash : Hash) : EntryObservation where
  source := source
  observedAt := t
  slot := 7
  entryIndex := 0
  numHashes := 12500
  entryHash := hash
  txCount := 0
  signatures := []
  firstShredAt := some 1

def sampleConfig : CorrelatorConfig := ⟨0, 1000, fun _ => none⟩

def sampleInputs : List Input :=
  [.observe (sampleObservation .yellowstone 1 10) 1, .observe (sampleObservation .yellowstone 2 10) 2,
    .observe (sampleObservation .shredStream 3 10) 3, .observe (sampleObservation .shredStream 4 11) 4]

/-- The writer gets the records one after the other. -/
def sampleRows : List Writer.Input :=
  ((runLoop sampleConfig sampleInputs 5).map fun r => .row r 6 true) ++ [.timeout 7 true]

def sampleReport : Report :=
  generate (BatchWriter.written (Writer.runLoop ⟨2, 100⟩ 0 sampleRows true))

theorem report_accounts_sample : Accounts sampleConfig sampleInputs sampleReport ∧
    sampleReport.both = 1 ∧ repeatedBy sampleConfig .yellowstone sampleInputs = 1 :=
  ⟨report_accounts sampleConfig sampleInputs 5 ⟨2, 100⟩ 0 sampleRows true (by decide +kernel)
    (by decide +kernel), by decide +kernel, by decide +kernel⟩

end SolanaBench.EntryComparator
