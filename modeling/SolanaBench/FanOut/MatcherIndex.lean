import Mathlib.Data.Finset.Erase
import SolanaBench.FanOut.MatcherRun

/-! The index of signatures and the set the observer watches. Both are filled with the
registration, and attempts leave the map by four ways: a match cleans up neither, and
the other three forget the set. -/
namespace SolanaBench.FanOut.Matcher

open Nonce

/-- The dispatcher inserts with the registration, and the observer removes before it sends
a match. -/
def pendingStep (pending : Finset Signature) : Input → Finset Signature
  | .register reg => insert reg.signature pending
  | .matched ev _ _ => pending.erase ev.signature
  | .send _ | .deadlineSweep _ => pending

/-- `pending_sigs` after these inputs. -/
def pendingSigs (is : List Input) : Finset Signature := is.foldl pendingStep ∅

/-- Every entry of `sig_to_key` is of an open attempt registered with that signature. -/
def Indexed (st : State) : Prop :=
  ∀ sig key, st.sigToKey.lookup sig = some key → ∃ reg, st.regOf key = some reg ∧ reg.signature = sig

/-- Every signature in `pending_sigs` is of an attempt without a row. -/
def Unresolved (is : List Input) (os : List Output) : Prop :=
  ∀ sig ∈ pendingSigs is, (∃ reg ∈ registrations is, reg.signature = sig) ∧
    ∀ row ∈ finals os, row.txSignature ≠ sig

structure Consistent (cfg : MatcherConfig) (is : List Input) : Prop where
  indexed : Indexed ((machine cfg).run {} is).1
  unresolved : Unresolved is ((machine cfg).run {} is).2

/-- A registration takes no open key, and the signature matched is not ours. -/
def KeepsIndex (st : State) : Input → Prop
  | .register reg => st.regOf reg.key = none
  | .matched ev _ _ => st.sigToKey.lookup ev.signature = none
  | .send _ | .deadlineSweep _ => True

/-- An error reply finds no open attempt, a match resolves no other sibling, and no
deadline has passed. -/
def KeepsPending (cfg : MatcherConfig) (st : State) : Input → Prop
  | .register _ => True
  | .send ev => ev.error.isSome → st.regOf ev.key = none
  | .matched ev _ _ => ∀ winner, st.sigToKey.lookup ev.signature = some winner →
    ∀ key reg, st.regOf key = some reg → key.1 = winner.1 → reg.signature = ev.signature
  | .deadlineSweep now => ∀ key reg, st.regOf key = some reg → expired cfg now reg = false

/-! ## The index -/

section

variable {cfg : MatcherConfig} {is : List Input} {st st' : State} {os : List Output}
  {out : Key → Option TentativeOutcome}

theorem Drops.indexed (hd : Drops out st st' os) (h : Indexed st) : Indexed st' := by
  intro sig key hsig
  obtain ⟨reg, hreg, rfl⟩ := h sig key (hd.shrinks hsig)
  refine ⟨reg, ?_, rfl⟩
  rw [hd.opened, if_neg fun hout => ?_]
  · exact hreg
  · rw [hd.gone key reg hreg hout] at hsig
    cases hsig

/-- The signature of a replaced attempt stays behind. -/
theorem indexed_registerAttempt {regs : List RegisterEvent} (ht : Tracks regs st)
    (h : Indexed st) {reg : RegisterEvent} (hnew : ∀ r ∈ regs, r.signature ≠ reg.signature) :
    Indexed (registerAttempt st reg) ↔ st.regOf reg.key = none := by
  have hlookup (sig : Signature) : (registerAttempt st reg).sigToKey.lookup sig =
      if sig = reg.signature then some reg.key else st.sigToKey.lookup sig := by
    by_cases hs : sig = reg.signature
    · rw [if_pos hs, hs]
      exact AList.lookup_insert _
    · rw [if_neg hs]
      exact AList.lookup_insert_ne hs
  constructor
  · intro h'
    by_contra hne
    obtain ⟨old, hold⟩ := Option.ne_none_iff_exists'.mp hne
    obtain ⟨hmem, -, hsig⟩ := ht.opened _ _ hold
    have hstale : (registerAttempt st reg).sigToKey.lookup old.signature = some reg.key := by
      rw [hlookup, if_neg (hnew old hmem), hsig]
    obtain ⟨r, hr, hrs⟩ := h' _ _ hstale
    rw [regOf_registerAttempt, if_pos rfl] at hr
    rw [← Option.some.inj hr] at hrs
    exact hnew old hmem hrs.symm
  · intro hfree sig key hsig
    rw [hlookup] at hsig
    rw [regOf_registerAttempt]
    by_cases hs : sig = reg.signature
    · rw [if_pos hs] at hsig
      exact ⟨reg, if_pos (Option.some.inj hsig).symm, hs.symm⟩
    · rw [if_neg hs] at hsig
      obtain ⟨r, hr, hrs⟩ := h sig key hsig
      have hne : key ≠ reg.key := by
        rintro rfl
        rw [hfree] at hr
        cases hr
      exact ⟨r, by rw [if_neg hne, hr], hrs⟩

/-- A match of a known signature closes the winner and leaves it in the index. -/
theorem indexed_handleMatchEvent (hk : Keyed st) (h : Indexed st) (cfg : MatcherConfig)
    (ev : MatchEvent) (cache : SlotHashCache) (now : Instant) :
    Indexed (handleMatchEvent cfg st ev cache now).1 ↔ st.sigToKey.lookup ev.signature = none := by
  have hc := closes_handleMatchEvent hk cfg ev cache now
  have hsigs := sigToKey_handleMatchEvent cfg st ev cache now
  constructor
  · intro h'
    by_contra hne
    obtain ⟨winner, hwinner⟩ := Option.ne_none_iff_exists'.mp hne
    obtain ⟨reg, hreg, -⟩ := h' ev.signature winner (by rw [hsigs, hwinner])
    rw [hc.opened] at hreg
    simp [matchOut, hwinner] at hreg
  · intro hnone sig key hsig
    rw [hsigs] at hsig
    rw [hc.opened]
    simpa [matchOut, hnone] using h sig key hsig

theorem indexed_step (ht : Tracks (registrations is) st) (h : Indexed st) (cfg : MatcherConfig)
    {i : Input} (hnew : ∀ reg ∈ registration? i, ∀ r ∈ registrations is,
      r.signature ≠ reg.signature) :
    Indexed ((machine cfg).step st i).1 ↔ KeepsIndex st i := by
  cases i with
  | register reg => exact indexed_registerAttempt ht h (hnew reg rfl)
  | send ev =>
    exact ⟨fun _ => trivial, fun _ => (drops_handleSendEvent ht.keyed cfg ev).indexed h⟩
  | matched ev cache now => exact indexed_handleMatchEvent ht.keyed h cfg ev cache now
  | deadlineSweep now =>
    exact ⟨fun _ => trivial, fun _ => (drops_sweepDeadlines ht.keyed cfg now).indexed h⟩

/-! ## The pending signatures -/

/-- The signatures of the rows are those of the attempts closed. -/
theorem Closes.mem_finals (hc : Closes out st st' os) {sig : Signature} :
    (∃ row ∈ finals os, row.txSignature = sig) ↔
      ∃ key reg, st.regOf key = some reg ∧ (out key).isSome ∧ reg.signature = sig := by
  constructor
  · rintro ⟨row, hrow, rfl⟩
    have hmem : row.verdict ∈ (rowsOf row.key os).map FinalRecord.verdict :=
      List.mem_map_of_mem (List.mem_filter.mpr ⟨hrow, by simp⟩)
    rw [hc.rows, Option.mem_toList] at hmem
    obtain ⟨reg, hreg, hout⟩ := Option.bind_eq_some_iff.mp hmem
    obtain ⟨o, ho, hv⟩ := Option.map_eq_some_iff.mp hout
    exact ⟨row.key, reg, hreg, by simp [ho], congrArg Prod.fst hv⟩
  · rintro ⟨key, reg, hreg, hout, rfl⟩
    obtain ⟨o, ho⟩ := Option.isSome_iff_exists.mp hout
    have hmem : (reg.signature, o) ∈ (rowsOf key os).map FinalRecord.verdict := by
      rw [hc.rows, hreg]
      simp [ho]
    obtain ⟨row, hrow, hv⟩ := List.mem_map.mp hmem
    exact ⟨row, (List.mem_filter.mp hrow).1, congrArg Prod.fst hv⟩

/-- Open attempts are pending, pending signatures are registered, and so are those of rows. -/
structure Watches (is : List Input) (st : State) (os : List Output) : Prop where
  opened : ∀ key reg, st.regOf key = some reg → reg.signature ∈ pendingSigs is
  pending : ∀ sig ∈ pendingSigs is, ∃ reg ∈ registrations is, reg.signature = sig
  rows : ∀ row ∈ finals os, ∃ reg ∈ registrations is, reg.signature = row.txSignature

theorem pendingSigs_snoc (is : List Input) (i : Input) :
    pendingSigs (is ++ [i]) = pendingStep (pendingSigs is) i := by
  simp [pendingSigs]

theorem pendingStep_subset {i : Input} (hi : registration? i = none) (pending : Finset Signature) :
    pendingStep pending i ⊆ pending := by
  cases i with
  | register reg => cases hi
  | matched ev cache now => exact Finset.erase_subset _ _
  | send ev => exact Finset.Subset.refl _
  | deadlineSweep now => exact Finset.Subset.refl _

theorem watches_init : Watches [] {} [] :=
  ⟨fun key reg hreg => by simp [State.regOf] at hreg, fun sig hsig => by simp [pendingSigs] at hsig,
    fun row hrow => by simp at hrow⟩

/-- The match of an open attempt closes it. -/
theorem ne_of_not_closed (ht : Tracks (registrations is) st) {ev : MatchEvent} {key : Key}
    {reg : RegisterEvent} (hreg : st.regOf key = some reg)
    (hout : (matchOut st ev key).isSome = false) : reg.signature ≠ ev.signature := by
  intro heq
  have hsig := (ht.opened key reg hreg).2.2
  rw [heq] at hsig
  simp [matchOut, hsig] at hout

theorem Watches.step (h : Watches is st os) (ht : Tracks (registrations is) st)
    (cfg : MatcherConfig) (i : Input) :
    Watches (is ++ [i]) ((machine cfg).step st i).1 (os ++ ((machine cfg).step st i).2) := by
  cases hi : registration? i with
  | some r =>
    obtain rfl := registration?_eq_some.mp hi
    have hregs : registrations (is ++ [.register r]) = registrations is ++ [r] := by
      simp [registrations_snoc, registration?]
    have hpending : pendingSigs (is ++ [.register r]) = insert r.signature (pendingSigs is) :=
      pendingSigs_snoc is _
    rw [append_step_register]
    refine ⟨fun key r' hr' => ?_, fun sig hsig => ?_, fun row hrow => ?_⟩
    · have hr : (registerAttempt st r).regOf key = some r' := hr'
      rw [regOf_registerAttempt] at hr
      rw [hpending]
      split_ifs at hr
      · rw [← Option.some.inj hr]
        exact Finset.mem_insert_self _ _
      · exact Finset.mem_insert_of_mem (h.opened key r' hr)
    · rw [hpending, Finset.mem_insert] at hsig
      rw [hregs]
      rcases hsig with rfl | hold
      · exact ⟨r, by simp, rfl⟩
      · obtain ⟨r', hr', hs⟩ := h.pending sig hold
        exact ⟨r', List.mem_append_left _ hr', hs⟩
    · rw [hregs]
      obtain ⟨r', hr', hs⟩ := h.rows row hrow
      exact ⟨r', List.mem_append_left _ hr', hs⟩
  | none =>
    have hc := closes_step ht.keyed cfg hi
    refine ⟨fun key reg hreg => ?_, fun sig hsig => ?_, fun row hrow => ?_⟩
    · rw [hc.opened] at hreg
      split_ifs at hreg with hout
      have hold := h.opened key reg hreg
      rw [pendingSigs_snoc]
      cases i with
      | register r => cases hi
      | send ev => exact hold
      | matched ev cache now =>
        exact Finset.mem_erase.mpr ⟨ne_of_not_closed ht hreg (by simpa [closing] using hout), hold⟩
      | deadlineSweep now => exact hold
    · rw [registrations_quiet hi]
      rw [pendingSigs_snoc] at hsig
      exact h.pending sig (pendingStep_subset hi _ hsig)
    · rw [registrations_quiet hi]
      rw [finals_append] at hrow
      rcases List.mem_append.mp hrow with hold | hnew
      · exact h.rows row hold
      · obtain ⟨key, reg, hreg, -, hs⟩ := hc.mem_finals.mp ⟨row, hnew, rfl⟩
        exact ⟨reg, (ht.opened key reg hreg).1, hs⟩

/-- Without a registration, what breaks the law is closing a pending attempt. -/
theorem unresolved_quiet (h : Unresolved is os) (ht : Tracks (registrations is) st)
    (cfg : MatcherConfig) {i : Input}
    (hi : registration? i = none) :
    Unresolved (is ++ [i]) (os ++ ((machine cfg).step st i).2) ↔
      ∀ key reg, st.regOf key = some reg → (closing cfg st i key).isSome →
        reg.signature ∉ pendingStep (pendingSigs is) i := by
  have hc := closes_step ht.keyed cfg hi
  unfold Unresolved
  rw [registrations_quiet hi, pendingSigs_snoc]
  constructor
  · intro h' key reg hreg hout hmem
    obtain ⟨row, hrow, hs⟩ := hc.mem_finals.mpr ⟨key, reg, hreg, hout, rfl⟩
    exact (h' _ hmem).2 row (by simp [hrow]) hs
  · intro h' sig hsig
    obtain ⟨hreg, hrows⟩ := h sig (pendingStep_subset hi _ hsig)
    refine ⟨hreg, fun row hrow hs => ?_⟩
    rw [finals_append] at hrow
    rcases List.mem_append.mp hrow with hold | hnew
    · exact hrows row hold hs
    · obtain ⟨key, reg, hkey, hout, hs'⟩ := hc.mem_finals.mp ⟨row, hnew, hs⟩
      exact h' key reg hkey hout (hs' ▸ hsig)

theorem unresolved_step (h : Unresolved is os) (hw : Watches is st os)
    (ht : Tracks (registrations is) st) (cfg : MatcherConfig) {i : Input}
    (hnew : ∀ reg ∈ registration? i, ∀ r ∈ registrations is, r.signature ≠ reg.signature) :
    Unresolved (is ++ [i]) (os ++ ((machine cfg).step st i).2) ↔ KeepsPending cfg st i := by
  cases i with
  | register reg =>
    refine ⟨fun _ => trivial, fun _ sig hsig => ?_⟩
    rw [pendingSigs_snoc] at hsig
    rw [append_step_register, registrations_snoc]
    rcases Finset.mem_insert.mp hsig with rfl | hold
    · refine ⟨⟨reg, by simp [registration?], rfl⟩, fun row hrow heq => ?_⟩
      obtain ⟨r, hr, hs⟩ := hw.rows row hrow
      exact hnew reg rfl r hr (hs.trans heq)
    · obtain ⟨⟨r, hr, hs⟩, hfree⟩ := h sig hold
      exact ⟨⟨r, List.mem_append_left _ hr, hs⟩, hfree⟩
  | send ev =>
    rw [unresolved_quiet h ht cfg rfl]
    constructor
    · intro hquiet herr
      by_contra hne
      obtain ⟨reg, hreg⟩ := Option.ne_none_iff_exists'.mp hne
      exact hquiet ev.key reg hreg (by simp [closing, sendOut, herr]) (hw.opened _ _ hreg)
    · intro hquiet key reg hreg hout
      simp only [closing, sendOut] at hout
      split_ifs at hout with hsend
      · rw [hsend.1, hquiet hsend.2] at hreg
        cases hreg
      · simp at hout
  | matched ev cache now =>
    rw [unresolved_quiet h ht cfg rfl]
    constructor
    · intro hquiet winner hwinner key reg hreg htrigger
      by_contra hne
      exact hquiet key reg hreg (by simp [closing, matchOut, hwinner, htrigger])
        (Finset.mem_erase.mpr ⟨hne, hw.opened _ _ hreg⟩)
    · intro hquiet key reg hreg hout hmem
      obtain ⟨o, ho⟩ := Option.isSome_iff_exists.mp hout
      obtain ⟨winner, hwinner, hwon⟩ := Option.bind_eq_some_iff.mp ho
      have htrigger : key.1 = winner.1 := by
        by_contra hne
        simp [hne] at hwon
      exact (Finset.mem_erase.mp hmem).1 (hquiet winner hwinner key reg hreg htrigger)
  | deadlineSweep now =>
    rw [unresolved_quiet h ht cfg rfl]
    constructor
    · intro hquiet key reg hreg
      by_contra hexp
      exact hquiet key reg hreg (by simpa [closing, sweepOut, hreg] using hexp)
        (hw.opened _ _ hreg)
    · intro hquiet key reg hreg hout
      simp [closing, sweepOut, hreg, hquiet key reg hreg] at hout

/-! ## Whole runs -/

theorem watches_run (cfg : MatcherConfig) (is : List Input)
    (hsigs : ((registrations is).map RegisterEvent.signature).Nodup) :
    Watches is ((machine cfg).run {} is).1 ((machine cfg).run {} is).2 := by
  induction is using List.reverseRecOn with
  | nil => exact watches_init
  | append_singleton is i ih =>
    rw [registrations_snoc, List.map_append] at hsigs
    have hold := hsigs.of_append_left
    have hnext := (ih hold).step (Tracks.run cfg is hold) cfg i
    simpa using hnext

/-- In every reachable state of a run the index and the pending signatures are those of
unresolved attempts, iff no step replaces an open attempt, closes one that is still
pending, or matches a signature of ours. -/
theorem consistent_iff (cfg : MatcherConfig) {is : List Input}
    (hsigs : ((registrations is).map RegisterEvent.signature).Nodup) :
    (∀ pre, pre <+: is → Consistent cfg pre) ↔
      (machine cfg).Along (fun st i => KeepsIndex st i ∧ KeepsPending cfg st i) {} is := by
  refine (EverySplit.iff_forall_prefix ?_ fun pre i post his h => ?_).symm
  · exact ⟨fun sig key hsig => by simp at hsig, fun sig hsig => by simp [pendingSigs] at hsig⟩
  · rw [his, ← List.singleton_append, ← List.append_assoc, registrations_append,
      List.map_append] at hsigs
    have hnew := fresh_signature hsigs.of_append_left
    have hpre := hsigs.of_append_left
    rw [registrations_snoc, List.map_append] at hpre
    have ht := Tracks.run cfg pre hpre.of_append_left
    have hw := watches_run cfg pre hpre.of_append_left
    have hindex := indexed_step ht h.indexed cfg hnew
    have hpending := unresolved_step h.unresolved hw ht cfg hnew
    refine Iff.trans ?_ (and_congr hindex hpending)
    constructor
    · intro h'
      exact ⟨by simpa using h'.indexed, by simpa using h'.unresolved⟩
    · rintro ⟨hi, hu⟩
      exact ⟨by simpa using hi, by simpa using hu⟩

/-- Two registrations and a match that is not ours. -/
theorem consistent_iff_registered : Consistent plainConfig
    [.register (plainRegister 1 11), .register (plainRegister 2 12),
      .matched (plainMatch 99) { window := 64 } 1] := by
  have hone : (machine plainConfig).Along (fun st i => KeepsIndex st i ∧ KeepsPending plainConfig st i)
      {} [.register (plainRegister 1 11)] := EverySplit.nil.snoc ⟨rfl, trivial⟩
  have htwo := hone.snoc (x := .register (plainRegister 2 12)) ⟨rfl, trivial⟩
  have hthree := htwo.snoc (x := .matched (plainMatch 99) { window := 64 } 1)
    ⟨rfl, fun winner hwinner => by cases hwinner⟩
  exact (consistent_iff plainConfig (by decide)).mpr hthree _ (List.prefix_refl _)

/-- A landed attempt stays in the index, and its sibling stays pending. -/
theorem match_leaves_index_stale : ¬∀ (cfg : MatcherConfig) (is : List Input),
    ((registrations is).map RegisterEvent.signature).Nodup → Consistent cfg is := by
  intro h
  let is : List Input := [.register (plainRegister 1 11), .register (plainRegister 2 12),
    .matched (plainMatch 11) { window := 64 } 1]
  have hindexed := (h plainConfig is (by decide)).indexed
  have hstale : ((machine plainConfig).run {} is).1.sigToKey.lookup 11 = some (1, 1) := by
    decide +kernel
  have hclosed : ((machine plainConfig).run {} is).1.regOf (1, 1) = none := by decide +kernel
  obtain ⟨reg, hreg, -⟩ := hindexed 11 (1, 1) hstale
  rw [hclosed] at hreg
  cases hreg

end

end SolanaBench.FanOut.Matcher
