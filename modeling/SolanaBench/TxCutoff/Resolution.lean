import SolanaBench.Lib.AListEach
import SolanaBench.Lib.AListRetain
import SolanaBench.TxCutoff.Engine

/-! What the engine holds of one transaction, and what it writes about it. -/
namespace SolanaBench.TxCutoff

/-! ## Records -/

def Output.written? : Output → Option TxRecord
  | .write rec => some rec
  | .ingest _ => none

def Output.counted? : Output → Option TxRecord
  | .write _ => none
  | .ingest rec => some rec

def written (os : List Output) : List TxRecord := os.filterMap Output.written?

def counted (os : List Output) : List TxRecord := os.filterMap Output.counted?

/-- The record says what became of the transaction. -/
def InclusionKind.isResolution : InclusionKind → Bool
  | .target => true
  | .late _ => true
  | .dropped => true
  | .pending => false
  | .sendError => false

def resolutionsOf (tx : TxHash) (rs : List TxRecord) : List TxRecord :=
  rs.filter fun r => decide (r.txHash = some tx) && r.inclusion.isResolution

section

variable {tx : TxHash} {os ps : List Output} {rec : TxRecord}

@[simp] theorem written_nil : written [] = [] := rfl

theorem written_append : written (os ++ ps) = written os ++ written ps := List.filterMap_append

theorem counted_append : counted (os ++ ps) = counted os ++ counted ps := List.filterMap_append

@[simp] theorem resolutionsOf_nil (tx : TxHash) : resolutionsOf tx [] = [] := rfl

theorem resolutionsOf_append (rs qs : List TxRecord) :
    resolutionsOf tx (rs ++ qs) = resolutionsOf tx rs ++ resolutionsOf tx qs := List.filter_append ..

theorem resolutionsOf_first (h : rec.inclusion.isResolution = false) :
    resolutionsOf tx [rec] = [] := by
  simp [resolutionsOf, h]

theorem resolutionsOf_other (h : rec.txHash ≠ some tx) : resolutionsOf tx [rec] = [] := by
  simp [resolutionsOf, h]

theorem resolutionsOf_self (h : rec.txHash = some tx) (hres : rec.inclusion.isResolution = true) :
    resolutionsOf tx [rec] = [rec] := by
  simp [resolutionsOf, h, hres]

end

/-- What is written is counted. -/
theorem counted_run (cfg : EngineConfig) (s : Engine) (is : List Input) :
    counted ((engine cfg).run s is).2 = written ((engine cfg).run s is).2 := by
  have hresolve : ∀ pending rs, counted (Engine.resolving.run pending rs).2 =
      written (Engine.resolving.run pending rs).2 := by
    intro pending rs
    induction rs generalizing pending with
    | nil => rfl
    | cons r rs ih =>
      rw [EventMachine.run_cons_snd, counted_append, written_append, ih]
      unfold Engine.resolving Engine.resolveOne
      dsimp only
      split
      · rfl
      · split <;> rfl
  refine (engine cfg).run_rule (fun _ _ os => counted os = written os) s rfl ?_ is
  intro _ s os i h
  rw [counted_append, written_append, h]
  congr 1
  unfold engine
  cases i with
  | header hd =>
    dsimp only
    split
    · exact hresolve _ _
    · rfl
  | sendResult r =>
    dsimp only
    split
    · unfold Engine.onResult
      split <;> rfl
    · rfl
  | ctrlC => rfl

namespace Engine

/-! ## Resolving -/

/-- The resolved transactions and the first records are filed under their own hash. -/
structure Sound (cfg : EngineConfig) (s : Engine) : Prop where
  lookahead : s.tracker.lookahead = cfg.lookahead
  resolved : ∀ tx, ∀ r ∈ s.tracker.resolved.lookup tx, r.txHash = tx
  pending : ∀ tx, ∀ p ∈ s.pendingRecords.lookup tx, p.txHash = tx

/-- The second record of a transaction, from what the first one left. -/
def secondRecord (part : Option PartialRecord) (r : ResolvedTx) : Option TxRecord :=
  part.bind fun p => (inclusionOf r.status).map fun k => p.intoTxRecord k r.includedBlock

section

variable {cfg : EngineConfig} {s : Engine} {tx : TxHash}
  {pending : AList fun _ : TxHash => PartialRecord} {r : ResolvedTx} {hd : Header}

theorem resolveOne_pending : (resolveOne pending r).1 = pending.erase r.txHash := by
  unfold resolveOne
  split
  · rfl
  · split <;> rfl

theorem resolveOne_written :
    written (resolveOne pending r).2 = (secondRecord (pending.lookup r.txHash) r).toList := by
  unfold resolveOne secondRecord
  cases pending.lookup r.txHash with
  | none => rfl
  | some part =>
    dsimp only [Option.bind_some]
    cases inclusionOf r.status <;> rfl

theorem isResolution_of_inclusionOf {k : InclusionKind} {st : InclusionStatus}
    (h : inclusionOf st = some k) : k.isResolution = true := by
  cases st <;> cases h <;> rfl

theorem resolutionsOf_secondRecord {part : Option PartialRecord} {tx' : TxHash}
    (h : ∀ p ∈ part, p.txHash = tx') : resolutionsOf tx (secondRecord part r).toList =
      if tx' = tx then (secondRecord part r).toList else [] := by
  cases hrec : secondRecord part r with
  | none => simp
  | some rec =>
    obtain ⟨p, hp, hk⟩ := Option.bind_eq_some_iff.mp hrec
    obtain ⟨k, hk, hrec'⟩ := Option.map_eq_some_iff.mp hk
    have hhash : rec.txHash = some tx' := by
      rw [← hrec', ← h p hp]
      rfl
    have hres : rec.inclusion.isResolution = true := by
      rw [← hrec']
      exact isResolution_of_inclusionOf hk
    by_cases htx : tx' = tx
    · rw [if_pos htx]
      exact resolutionsOf_self (htx ▸ hhash) hres
    · rw [if_neg htx]
      exact resolutionsOf_other fun heq => htx (Option.some.inj (hhash.symm.trans heq))

theorem resolving_keyed (hkeyed : ∀ tx, ∀ p ∈ pending.lookup tx, p.txHash = tx)
    (rs : List ResolvedTx) :
    ∀ tx, ∀ p ∈ (resolving.run pending rs).1.lookup tx, p.txHash = tx := by
  refine resolving.run_invariant (fun pending => ∀ tx, ∀ p ∈ pending.lookup tx, p.txHash = tx)
    hkeyed (fun pending r hpending => ?_) rs
  have hstep : (resolving.step pending r).1 = pending.erase r.txHash := resolveOne_pending
  rw [hstep]
  exact AList.Each.erase hpending r.txHash

/-- The first mention of a transaction takes its first record and writes the second. -/
theorem resolving_of (hkeyed : ∀ tx, ∀ p ∈ pending.lookup tx, p.txHash = tx) (rs : List ResolvedTx) :
    (resolving.run pending rs).1.lookup tx =
        (pending.lookup tx).filter (fun _ => (rs.filterMap (Tracker.ofTx? tx)).isEmpty) ∧
      resolutionsOf tx (written (resolving.run pending rs).2) =
        ((rs.filterMap (Tracker.ofTx? tx)).head?.bind (secondRecord (pending.lookup tx))).toList := by
  induction rs generalizing pending with
  | nil =>
    rw [EventMachine.run_nil]
    exact ⟨by cases pending.lookup tx <;> rfl, rfl⟩
  | cons r rs ih =>
    have hstep : (resolving.step pending r).1 = pending.erase r.txHash := resolveOne_pending
    have hout : resolutionsOf tx (written (resolving.step pending r).2) =
        if r.txHash = tx then (secondRecord (pending.lookup r.txHash) r).toList else [] :=
      (congrArg _ resolveOne_written).trans (resolutionsOf_secondRecord (hkeyed r.txHash))
    have hkeyed' := resolving_keyed hkeyed [r]
    rw [EventMachine.run_cons_fst, EventMachine.run_nil] at hkeyed'
    obtain ⟨hpart, hrecords⟩ := ih hkeyed'
    rw [EventMachine.run_cons_fst, EventMachine.run_cons_snd, written_append, resolutionsOf_append,
      hout, hpart, hrecords, hstep]
    by_cases hr : r.txHash = tx
    · subst hr
      rw [AList.lookup_erase, if_pos rfl]
      simp [Tracker.ofTx?, secondRecord]
    · rw [AList.lookup_erase_ne (Ne.symm hr), if_neg hr]
      simp [Tracker.ofTx?, hr]

/-- What the block settles about the transaction, with what was settled before. -/
def settled (s : Engine) (hd : Header) (tx : TxHash) : Option ResolvedTx :=
  (s.tracker.verdictOf hd.number (hd.fetched.getD []) tx).or (s.tracker.resolved.lookup tx)

theorem txHash_of_verdictOf {t : Tracker} {n : ℕ} {txs : List TxHash}
    (h : t.verdictOf n txs tx = some r) : r.txHash = tx := by
  obtain ⟨st, -, hst⟩ := Option.bind_eq_some_iff.mp h
  exact Tracker.txHash_of_verdict hst

theorem Sound.observeBlock (h : s.Sound cfg) (hd : Header) (tx : TxHash) :
    ∀ r ∈ (s.tracker.observeBlock hd.number (hd.fetched.getD [])).resolved.lookup tx,
      r.txHash = tx := by
  intro r hr
  rw [Tracker.observeBlock_resolved] at hr
  rcases Option.or_eq_some_iff.mp hr with hv | ⟨-, hold⟩
  · exact txHash_of_verdictOf hv
  · exact h.resolved tx r hold

/-- The drained list mentions each transaction at most once. -/
theorem Sound.drained (h : s.Sound cfg) (hd : Header) (tx : TxHash) :
    (s.tracker.observeBlock hd.number (hd.fetched.getD [])).drainResolved.1.filterMap
      (Tracker.ofTx? tx) = (s.settled hd tx).toList := by
  rw [Tracker.drainResolved_ofTx fun tx => h.observeBlock hd tx]
  exact congrArg Option.toList Tracker.observeBlock_resolved

theorem Sound.resolve (h : s.Sound cfg) (hd : Header) : (s.resolve hd).1.Sound cfg where
  lookahead := h.lookahead
  resolved _ _ hr := by cases hr
  pending := resolving_keyed h.pending _

/-- The transaction after the block. -/
theorem resolve_pending (h : s.Sound cfg) : (s.resolve hd).1.pendingRecords.lookup tx =
    (s.pendingRecords.lookup tx).filter fun _ => (s.settled hd tx).isNone := by
  refine (resolving_of h.pending _).1.trans ?_
  rw [h.drained]
  cases s.settled hd tx <;> rfl

theorem resolve_records (h : s.Sound cfg) : resolutionsOf tx (written (s.resolve hd).2) =
    ((s.settled hd tx).bind (secondRecord (s.pendingRecords.lookup tx))).toList := by
  refine (resolving_of h.pending _).2.trans ?_
  rw [h.drained]
  cases s.settled hd tx <;> rfl

end

/-! ## One transaction -/

/-- The step does not touch the transaction. -/
structure Keeps (cfg : EngineConfig) (tx : TxHash) (s s' : Engine) : Prop where
  sound : s.Sound cfg → s'.Sound cfg
  states : s'.tracker.states.lookup tx = s.tracker.states.lookup tx
  targets : s'.tracker.targets.lookup tx = s.tracker.targets.lookup tx
  resolved : s'.tracker.resolved.lookup tx = s.tracker.resolved.lookup tx
  pending : s'.pendingRecords.lookup tx = s.pendingRecords.lookup tx

/-- The engine has not met the transaction. -/
structure Fresh (cfg : EngineConfig) (tx : TxHash) (s : Engine) : Prop where
  sound : s.Sound cfg
  states : s.tracker.states.lookup tx = none
  resolved : s.tracker.resolved.lookup tx = none
  pending : s.pendingRecords.lookup tx = none

/-- The tracker waits for the transaction. -/
structure Open (cfg : EngineConfig) (tx : TxHash) (target : ℕ) (part : Option PartialRecord)
    (s : Engine) : Prop where
  sound : s.Sound cfg
  states : s.tracker.states.lookup tx = some (.pending target)
  targets : s.tracker.targets.lookup tx = some target
  resolved : s.tracker.resolved.lookup tx = none
  pending : s.pendingRecords.lookup tx = part

/-- The tracker does not wait for it, and has nothing to say of it. -/
structure Closed (cfg : EngineConfig) (tx : TxHash) (s : Engine) : Prop where
  sound : s.Sound cfg
  states : ∀ target, s.tracker.states.lookup tx ≠ some (.pending target)
  resolved : ∀ r ∈ s.tracker.resolved.lookup tx, inclusionOf r.status = none

/-- What a block says of a transaction that is waited for. -/
def decision (cfg : EngineConfig) (tx : TxHash) (target : ℕ) (hd : Header) : Option ResolvedTx :=
  Tracker.verdict cfg.lookahead hd.number (hd.fetched.getD []) tx target (.pending target)

/-- The engine signs and sends the transaction. -/
def Schedules (cfg : EngineConfig) (s : Engine) (tx : TxHash) : Input → Prop
  | .header hd => s.running ∧ s.samples cfg hd ∧ tx ∈ hd.signed.map SignedTx.txHash
  | .sendResult _ => False
  | .ctrlC => False

section

variable {cfg : EngineConfig} {s s' : Engine} {tx : TxHash} {target : ℕ}
  {part : Option PartialRecord} {r : ResolvedTx} {hd : Header}

theorem Fresh.keep (h : Fresh cfg tx s) (hk : Keeps cfg tx s s') : Fresh cfg tx s' :=
  ⟨hk.sound h.sound, hk.states.trans h.states, hk.resolved.trans h.resolved,
    hk.pending.trans h.pending⟩

theorem Open.keep (h : Open cfg tx target part s) (hk : Keeps cfg tx s s') :
    Open cfg tx target part s' :=
  ⟨hk.sound h.sound, hk.states.trans h.states, hk.targets.trans h.targets,
    hk.resolved.trans h.resolved, hk.pending.trans h.pending⟩

theorem Closed.keep (h : Closed cfg tx s) (hk : Keeps cfg tx s s') : Closed cfg tx s' where
  sound := hk.sound h.sound
  states := hk.states ▸ h.states
  resolved := hk.resolved ▸ h.resolved

theorem Fresh.closed (h : Fresh cfg tx s) : Closed cfg tx s where
  sound := h.sound
  states _ := by simp [h.states]
  resolved := by simp [h.resolved]

theorem fresh_start : Fresh cfg tx (start cfg) :=
  ⟨⟨rfl, fun _ _ h => (by cases h), fun _ _ h => (by cases h)⟩, rfl, rfl, rfl⟩

theorem settled_of_closed (h : Closed cfg tx s) (hd : Header) :
    s.settled hd tx = s.tracker.resolved.lookup tx := by
  unfold settled Tracker.verdictOf
  cases hst : s.tracker.states.lookup tx with
  | none => rfl
  | some st =>
    cases st with
    | pending target => exact absurd hst (h.states target)
    | _ => rfl

theorem settled_of_open (h : Open cfg tx target part s) (hd : Header) :
    s.settled hd tx = decision cfg tx target hd := by
  unfold settled Tracker.verdictOf decision
  rw [h.states, h.targets, h.resolved, h.sound.lookahead, Option.or_none]
  rfl

/-! ## Blocks -/

theorem Closed.resolve (h : Closed cfg tx s) (hd : Header) : Closed cfg tx (s.resolve hd).1 ∧
    resolutionsOf tx (written (s.resolve hd).2) = [] := by
  have hsettled := settled_of_closed h hd
  refine ⟨⟨h.sound.resolve hd, fun target => ?_, fun _ hr => by cases hr⟩, ?_⟩
  · refine ne_of_eq_of_ne Tracker.observeBlock_states ?_
    have hv : s.tracker.verdictOf hd.number (hd.fetched.getD []) tx = none := by
      unfold Tracker.verdictOf
      cases hst : s.tracker.states.lookup tx with
      | none => rfl
      | some st =>
        cases st with
        | pending target => exact absurd hst (h.states target)
        | _ => rfl
    rw [hv]
    exact h.states target
  · rw [resolve_records h.sound, hsettled]
    cases hr : s.tracker.resolved.lookup tx with
    | none => rfl
    | some r =>
      rw [Option.bind_some]
      unfold secondRecord
      rw [h.resolved r hr]
      cases s.pendingRecords.lookup tx <;> rfl

theorem Fresh.resolve (h : Fresh cfg tx s) (hd : Header) : Fresh cfg tx (s.resolve hd).1 where
  sound := h.sound.resolve hd
  states := by
    refine Tracker.observeBlock_states.trans ?_
    unfold Tracker.verdictOf
    rw [h.states]
    rfl
  resolved := rfl
  pending := by rw [resolve_pending h.sound, h.pending, Option.filter_none]

theorem verdictOf_of_open (h : Open cfg tx target part s) (hd : Header) :
    s.tracker.verdictOf hd.number (hd.fetched.getD []) tx = decision cfg tx target hd := by
  unfold Tracker.verdictOf decision
  rw [h.states, h.targets, h.sound.lookahead]
  rfl

/-- A block that says nothing of the transaction. -/
theorem Open.waits (h : Open cfg tx target part s) (hwait : decision cfg tx target hd = none) :
    Open cfg tx target part (s.resolve hd).1 ∧
      resolutionsOf tx (written (s.resolve hd).2) = [] := by
  have hsettled := (settled_of_open h hd).trans hwait
  refine ⟨⟨h.sound.resolve hd, ?_, h.targets, rfl, ?_⟩, ?_⟩
  · refine Tracker.observeBlock_states.trans ?_
    rw [verdictOf_of_open h, hwait]
    exact h.states
  · rw [resolve_pending h.sound, hsettled, h.pending]
    cases part <;> rfl
  · rw [resolve_records h.sound, hsettled]
    rfl

theorem not_pending_of_decision (h : decision cfg tx target hd = some r) (target' : ℕ) :
    r.status ≠ .pending target' := by
  unfold decision Tracker.verdict at h
  dsimp only at h
  split at h
  · rw [← Option.some.inj h]
    dsimp only
    split <;> exact nofun
  · split at h
    · rw [← Option.some.inj h]
      exact nofun
    · cases h

/-- The block that decides about the transaction. -/
theorem Open.decides (h : Open cfg tx target part s) (hdec : decision cfg tx target hd = some r) :
    Closed cfg tx (s.resolve hd).1 ∧
      resolutionsOf tx (written (s.resolve hd).2) = (secondRecord part r).toList := by
  have hsettled := (settled_of_open h hd).trans hdec
  refine ⟨⟨h.sound.resolve hd, fun target' => ?_, fun _ hr => by cases hr⟩, ?_⟩
  · refine ne_of_eq_of_ne Tracker.observeBlock_states ?_
    rw [verdictOf_of_open h, hdec]
    exact fun heq => not_pending_of_decision hdec target' (Option.some.inj heq)
  · rw [resolve_records h.sound, hsettled, h.pending, Option.bind_some]

/-! ## Batches -/

theorem recordSents_of (t : Tracker) (txs : List SignedTx) (n : ℕ) (tx : TxHash) :
    let t' := txs.foldl (fun t x => t.recordSent x.txHash n) t
    t'.lookahead = t.lookahead ∧ t'.resolved = t.resolved ∧
      t'.states.lookup tx =
        (if tx ∈ txs.map SignedTx.txHash then some (.pending n) else t.states.lookup tx) ∧
      t'.targets.lookup tx =
        if tx ∈ txs.map SignedTx.txHash then some n else t.targets.lookup tx := by
  induction txs using List.reverseRecOn with
  | nil => simp
  | append_singleton txs x ih =>
    obtain ⟨hlookahead, hresolved, hstates, htargets⟩ := ih
    have hmem : tx ∈ (txs ++ [x]).map SignedTx.txHash ↔
        x.txHash = tx ∨ tx ∈ txs.map SignedTx.txHash := by
      simp [or_comm, eq_comm]
    dsimp only
    rw [List.foldl_append, List.foldl_cons, List.foldl_nil]
    refine ⟨hlookahead, hresolved, ?_, ?_⟩
    · change (AList.insert x.txHash _ _).lookup tx = _
      by_cases hx : x.txHash = tx
      · subst hx
        rw [AList.lookup_insert, if_pos (hmem.mpr (Or.inl rfl))]
      · rw [AList.lookup_insert_ne (Ne.symm hx), hstates]
        simp only [hmem, hx, false_or]
    · change (AList.insert x.txHash _ _).lookup tx = _
      by_cases hx : x.txHash = tx
      · subst hx
        rw [AList.lookup_insert, if_pos (hmem.mpr (Or.inl rfl))]
      · rw [AList.lookup_insert_ne (Ne.symm hx), htargets]
        simp only [hmem, hx, false_or]

theorem sample_pendingRecords (cfg : EngineConfig) (s : Engine) (hd : Header) :
    (s.sample cfg hd).pendingRecords = s.pendingRecords := by
  unfold sample
  split
  · rfl
  · split
    · rfl
    · split <;> rfl

theorem sample_tracker (cfg : EngineConfig) (s : Engine) (hd : Header) : (s.sample cfg hd).tracker =
    if s.samples cfg hd then (s.register hd).tracker else s.tracker := by
  unfold sample samples
  cases hslot : cfg.schedule.slotMsFor s.blockIndex with
  | none => simp
  | some slotMs =>
    dsimp only
    rw [Option.any_some]
    by_cases hmiss : targetUnixMs hd slotMs ≤ hd.receivedUnixMs
    · simp [hmiss]
    · cases cfg.routerParses <;> simp [hmiss]

theorem Sound.sample (h : s.Sound cfg) (hd : Header) : (s.sample cfg hd).Sound cfg where
  lookahead := by
    rw [sample_tracker]
    split
    · exact (recordSents_of s.tracker hd.signed hd.targetBlock 0).1.trans h.lookahead
    · exact h.lookahead
  resolved tx r hr := by
    refine h.resolved tx r ?_
    rw [sample_tracker] at hr
    split at hr
    · rwa [register, (recordSents_of s.tracker hd.signed hd.targetBlock 0).2.1] at hr
    · exact hr
  pending := sample_pendingRecords cfg s hd ▸ h.pending

/-- A batch without the transaction. -/
theorem keeps_sample (s : Engine) (h : s.samples cfg hd → tx ∉ hd.signed.map SignedTx.txHash) :
    Keeps cfg tx s (s.sample cfg hd) := by
  obtain ⟨-, hresolved, hstates, htargets⟩ := recordSents_of s.tracker hd.signed hd.targetBlock tx
  have hpending := congrArg (AList.lookup tx) (sample_pendingRecords cfg s hd)
  have htracker := sample_tracker cfg s hd
  cases hsamples : s.samples cfg hd with
  | false =>
    rw [hsamples, if_neg Bool.false_ne_true] at htracker
    exact ⟨fun hs => hs.sample hd, by rw [htracker], by rw [htracker], by rw [htracker], hpending⟩
  | true =>
    rw [hsamples, if_pos rfl] at htracker
    rw [if_neg (h hsamples)] at hstates htargets
    refine ⟨fun hs => hs.sample hd, ?_, ?_, ?_, hpending⟩
    · rw [htracker]
      exact hstates
    · rw [htracker]
      exact htargets
    · rw [htracker]
      exact congrArg (AList.lookup tx) hresolved

/-- The batch with the transaction. -/
theorem Fresh.sample (h : Fresh cfg tx s) (hsamples : s.samples cfg hd)
    (hsigned : tx ∈ hd.signed.map SignedTx.txHash) :
    Open cfg tx hd.targetBlock none (s.sample cfg hd) := by
  obtain ⟨-, hresolved, hstates, htargets⟩ := recordSents_of s.tracker hd.signed hd.targetBlock tx
  rw [if_pos hsigned] at hstates htargets
  have htracker := (sample_tracker cfg s hd).trans (if_pos hsamples)
  refine ⟨h.sound.sample hd, ?_, ?_, ?_, ?_⟩
  · rw [htracker]
    exact hstates
  · rw [htracker]
    exact htargets
  · rw [htracker]
    exact (congrArg (AList.lookup tx) hresolved).trans h.resolved
  · rw [sample_pendingRecords]
    exact h.pending

/-! ## Send results -/

variable {res : SendResult}

theorem onResult_records (s : Engine) (res : SendResult) :
    resolutionsOf tx (written (s.onResult res).2) = [] := by
  unfold onResult
  dsimp only
  split
  · exact resolutionsOf_first rfl
  · exact resolutionsOf_first rfl

theorem drain_records (res : SendResult) : resolutionsOf tx (written (drain res)) = [] := by
  unfold drain
  refine resolutionsOf_first ?_
  cases res.outcome <;> rfl

theorem onResult_accepted (h : res.outcome.isAccepted) :
    (s.onResult res).1.tracker = s.tracker ∧
      (s.onResult res).1.pendingRecords = s.pendingRecords.insert res.txHash res.partialRecord := by
  unfold onResult
  dsimp only
  rw [if_pos h]
  exact ⟨rfl, rfl⟩

theorem onResult_rejected (h : ¬res.outcome.isAccepted) :
    (s.onResult res).1.tracker = s.tracker.recordSendError res.txHash res.outcome.text ∧
      (s.onResult res).1.pendingRecords = s.pendingRecords := by
  unfold onResult
  dsimp only
  rw [if_neg h]
  exact ⟨rfl, rfl⟩

theorem Sound.onResult (h : s.Sound cfg) (res : SendResult) : (s.onResult res).1.Sound cfg := by
  by_cases hacc : res.outcome.isAccepted
  · obtain ⟨htracker, hpending⟩ := onResult_accepted (s := s) hacc
    refine ⟨by rw [htracker]; exact h.lookahead, by rw [htracker]; exact h.resolved, ?_⟩
    rw [hpending]
    exact AList.Each.insert h.pending rfl
  · obtain ⟨htracker, hpending⟩ := onResult_rejected (s := s) hacc
    refine ⟨by rw [htracker]; exact h.lookahead, ?_, by rw [hpending]; exact h.pending⟩
    rw [htracker]
    exact AList.Each.insert h.resolved rfl

/-- The result of another transaction. -/
theorem keeps_onResult (s : Engine) (h : res.txHash ≠ tx) : Keeps cfg tx s (s.onResult res).1 := by
  by_cases hacc : res.outcome.isAccepted
  · obtain ⟨htracker, hpending⟩ := onResult_accepted (s := s) hacc
    refine ⟨fun hs => hs.onResult res, by rw [htracker], by rw [htracker], by rw [htracker], ?_⟩
    rw [hpending, AList.lookup_insert_ne (Ne.symm h)]
  · obtain ⟨htracker, hpending⟩ := onResult_rejected (s := s) hacc
    refine ⟨fun hs => hs.onResult res, ?_, by rw [htracker]; rfl, ?_, by rw [hpending]⟩
    · rw [htracker, Tracker.recordSendError, AList.lookup_insert_ne (Ne.symm h)]
    · rw [htracker, Tracker.recordSendError, AList.lookup_insert_ne (Ne.symm h)]

theorem Open.accepted (h : Open cfg tx target part s) (htx : res.txHash = tx)
    (hacc : res.outcome.isAccepted) :
    Open cfg tx target (some res.partialRecord) (s.onResult res).1 := by
  obtain ⟨htracker, hpending⟩ := onResult_accepted (s := s) hacc
  refine ⟨h.sound.onResult res, ?_, ?_, ?_, ?_⟩
  · rw [htracker]
    exact h.states
  · rw [htracker]
    exact h.targets
  · rw [htracker]
    exact h.resolved
  · rw [hpending, htx, AList.lookup_insert]

/-- A rejected transaction is not waited for. -/
theorem closed_of_rejected (h : s.Sound cfg) (htx : res.txHash = tx)
    (hrej : ¬res.outcome.isAccepted) : Closed cfg tx (s.onResult res).1 := by
  obtain ⟨htracker, -⟩ := onResult_rejected (s := s) hrej
  subst htx
  refine ⟨h.onResult res, fun target => ?_, fun r hr => ?_⟩
  · rw [htracker, Tracker.recordSendError, AList.lookup_insert]
    exact nofun
  · rw [htracker, Tracker.recordSendError, AList.lookup_insert] at hr
    rw [← Option.some.inj hr]
    rfl

theorem Closed.onResult (h : Closed cfg tx s) (res : SendResult) :
    Closed cfg tx (s.onResult res).1 := by
  by_cases htx : res.txHash = tx
  · by_cases hacc : res.outcome.isAccepted
    · obtain ⟨htracker, -⟩ := onResult_accepted (s := s) hacc
      refine ⟨h.sound.onResult res, ?_, ?_⟩
      · rw [htracker]
        exact h.states
      · rw [htracker]
        exact h.resolved
    · exact closed_of_rejected h.sound htx hacc
  · exact h.keep (keeps_onResult s htx)

end
end Engine

/-! ## Steps -/

def Input.answered? : Input → Option TxHash
  | .header _ => none
  | .sendResult res => some res.txHash
  | .ctrlC => none

/-- The transactions that the wallets sign on the input. -/
def Input.signed : Input → List TxHash
  | .header hd => hd.signed.map SignedTx.txHash
  | .sendResult _ => []
  | .ctrlC => []

namespace Engine

section

variable {cfg : EngineConfig} {s : Engine} {tx : TxHash} {target : ℕ}
  {part : Option PartialRecord} {r : ResolvedTx} {hd : Header} {i : Input} {res : SendResult}

theorem step_header (hrun : s.running) :
    (engine cfg).step s (.header hd) = ((s.resolve hd).1.sample cfg hd, (s.resolve hd).2) := by
  simp [engine, onHeader, hrun]

theorem step_sendResult (hrun : s.running) :
    (engine cfg).step s (.sendResult res) = s.onResult res := by
  simp [engine, hrun]

/-- After the main loop only first records are written. -/
theorem step_stopped (hstop : ¬s.running) : Keeps cfg tx s ((engine cfg).step s i).1 ∧
    ((engine cfg).step s i).1.running = false ∧
      resolutionsOf tx (written ((engine cfg).step s i).2) = [] := by
  have hfalse : s.running = false := Bool.not_eq_true _ ▸ hstop
  cases i with
  | header hd => simpa [engine, hfalse] using ⟨id, rfl, rfl, rfl, rfl⟩
  | sendResult res => simpa [engine, hfalse, drain_records] using ⟨id, rfl, rfl, rfl, rfl⟩
  | ctrlC => exact ⟨⟨fun h => ⟨h.lookahead, h.resolved, h.pending⟩, rfl, rfl, rfl, rfl⟩, rfl, rfl⟩

theorem signed_of_schedules (h : Schedules cfg s tx i) : tx ∈ i.signed := by
  cases i with
  | header hd => exact h.2.2
  | sendResult res => exact h.elim
  | ctrlC => exact h.elim

/-- A step that does not ask for the transaction, answer it or look for it. -/
theorem step_ctrlC : Keeps cfg tx s ((engine cfg).step s .ctrlC).1 ∧
    resolutionsOf tx (written ((engine cfg).step s .ctrlC).2) = [] :=
  ⟨⟨fun h => ⟨h.lookahead, h.resolved, h.pending⟩, rfl, rfl, rfl, rfl⟩, rfl⟩

theorem Closed.step (h : Closed cfg tx s) (hnew : tx ∉ i.signed) :
    Closed cfg tx ((engine cfg).step s i).1 ∧
      resolutionsOf tx (written ((engine cfg).step s i).2) = [] := by
  by_cases hrun : s.running
  · cases i with
    | header hd =>
      rw [step_header hrun]
      obtain ⟨hclosed, hout⟩ := h.resolve hd
      exact ⟨hclosed.keep (keeps_sample _ fun _ => hnew), hout⟩
    | sendResult res =>
      rw [step_sendResult hrun]
      exact ⟨h.onResult res, onResult_records s res⟩
    | ctrlC => exact ⟨h.keep step_ctrlC.1, step_ctrlC.2⟩
  · obtain ⟨hkeeps, -, hout⟩ := step_stopped hrun
    exact ⟨h.keep hkeeps, hout⟩

theorem Fresh.step (h : Fresh cfg tx s) (hnew : tx ∉ i.signed) (hans : tx ∉ i.answered?) :
    Fresh cfg tx ((engine cfg).step s i).1 := by
  by_cases hrun : s.running
  · cases i with
    | header hd =>
      rw [step_header hrun]
      exact (h.resolve hd).keep (keeps_sample _ fun _ => hnew)
    | sendResult res =>
      rw [step_sendResult hrun]
      exact h.keep (keeps_onResult s fun heq => hans (congrArg some heq))
    | ctrlC => exact h.keep step_ctrlC.1
  · exact h.keep (step_stopped hrun).1

/-- The step that sends the transaction. -/
theorem Fresh.schedule (h : Fresh cfg tx s) (hs : Schedules cfg s tx (.header hd)) :
    Open cfg tx hd.targetBlock none ((engine cfg).step s (.header hd)).1 ∧
      resolutionsOf tx (written ((engine cfg).step s (.header hd)).2) = [] := by
  obtain ⟨hrun, hsamples, hsigned⟩ := hs
  rw [step_header hrun]
  exact ⟨(h.resolve hd).sample hsamples hsigned, (h.closed.resolve hd).2⟩

/-- A step without a decision. -/
theorem Open.step (h : Open cfg tx target part s) (hnew : tx ∉ i.signed)
    (hwait : ∀ hd, i = .header hd → s.running → decision cfg tx target hd = none) :
    ((tx ∉ i.answered? ∨ ¬s.running) ∧ Open cfg tx target part ((engine cfg).step s i).1 ∨
      (∃ res, i = .sendResult res ∧ res.txHash = tx ∧ res.outcome.isAccepted ∧
        Open cfg tx target (some res.partialRecord) ((engine cfg).step s i).1) ∨
      ∃ res, i = .sendResult res ∧ res.txHash = tx ∧ ¬res.outcome.isAccepted ∧
        Closed cfg tx ((engine cfg).step s i).1) ∧
      resolutionsOf tx (written ((engine cfg).step s i).2) = [] := by
  by_cases hrun : s.running
  · cases i with
    | header hd =>
      rw [step_header hrun]
      obtain ⟨hopen, hout⟩ := h.waits (hwait hd rfl hrun)
      exact ⟨Or.inl ⟨Or.inl nofun, hopen.keep (keeps_sample _ fun _ => hnew)⟩, hout⟩
    | sendResult res =>
      rw [step_sendResult hrun]
      refine ⟨?_, onResult_records s res⟩
      by_cases htx : res.txHash = tx
      · by_cases hacc : res.outcome.isAccepted
        · exact Or.inr (Or.inl ⟨res, rfl, htx, hacc, h.accepted htx hacc⟩)
        · exact Or.inr (Or.inr ⟨res, rfl, htx, hacc, closed_of_rejected h.sound htx hacc⟩)
      · exact Or.inl ⟨Or.inl fun heq => htx (Option.some.inj heq), h.keep (keeps_onResult s htx)⟩
    | ctrlC => exact ⟨Or.inl ⟨Or.inl nofun, h.keep step_ctrlC.1⟩, step_ctrlC.2⟩
  · obtain ⟨hkeeps, -, hout⟩ := step_stopped hrun
    exact ⟨Or.inl ⟨Or.inr hrun, h.keep hkeeps⟩, hout⟩

/-- The step that decides. -/
theorem Open.decide (h : Open cfg tx target part s) (hrun : s.running)
    (hdec : decision cfg tx target hd = some r) (hnew : tx ∉ (Input.header hd).signed) :
    Closed cfg tx ((engine cfg).step s (.header hd)).1 ∧
      resolutionsOf tx (written ((engine cfg).step s (.header hd)).2) =
        (secondRecord part r).toList := by
  rw [step_header hrun]
  obtain ⟨hclosed, hout⟩ := h.decides hdec
  exact ⟨hclosed.keep (keeps_sample _ fun _ => hnew), hout⟩

/-! ## Runs -/

variable {is : List Input}

theorem running_of_run (h : ((engine cfg).run s is).1.running) : s.running := by
  induction is generalizing s with
  | nil => exact h
  | cons i is ih =>
    by_contra hstop
    have hnext := ih h
    rw [(@step_stopped cfg s 0 i hstop).2.1] at hnext
    cases hnext

theorem Closed.run (h : Closed cfg tx s) (hnew : tx ∉ is.flatMap Input.signed) :
    resolutionsOf tx (written ((engine cfg).run s is).2) = [] := by
  induction is generalizing s with
  | nil => rfl
  | cons i is ih =>
    rw [List.flatMap_cons, List.mem_append, not_or] at hnew
    obtain ⟨hclosed, hout⟩ := h.step hnew.1
    rw [EventMachine.run_cons_snd, written_append, resolutionsOf_append, hout,
      ih hclosed hnew.2, List.nil_append]

theorem Fresh.run (h : Fresh cfg tx s) (hnew : tx ∉ is.flatMap Input.signed)
    (hans : tx ∉ is.filterMap Input.answered?) : Fresh cfg tx ((engine cfg).run s is).1 := by
  induction is generalizing s with
  | nil => exact h
  | cons i is ih =>
    rw [List.flatMap_cons, List.mem_append, not_or] at hnew
    have hans' : tx ∉ i.answered? ∧ tx ∉ is.filterMap Input.answered? := by
      rw [List.filterMap_cons] at hans
      cases hi : i.answered? with
      | none => simpa [hi] using hans
      | some tx' => simpa [hi, eq_comm] using hans
    exact ih (h.step hnew.1 hans'.1) hnew.2 hans'.2

/-- While no block decides, nothing is resolved. -/
theorem Open.undecided (h : Open cfg tx target part s) (hnew : tx ∉ is.flatMap Input.signed)
    (hwait : (engine cfg).Along (fun s i => ∀ hd, i = .header hd → s.running →
      decision cfg tx target hd = none) s is) :
    resolutionsOf tx (written ((engine cfg).run s is).2) = [] := by
  have hinv : ((∃ part, Open cfg tx target part ((engine cfg).run s is).1) ∨
      Closed cfg tx ((engine cfg).run s is).1) ∧
      resolutionsOf tx (written ((engine cfg).run s is).2) = [] := by
    induction is using List.reverseRecOn with
    | nil => exact ⟨Or.inl ⟨part, h⟩, rfl⟩
    | append_singleton is i ih =>
      rw [List.flatMap_append, List.mem_append, not_or] at hnew
      obtain ⟨hwait, hi⟩ := EverySplit.snoc_iff.mp hwait
      have hi' : tx ∉ i.signed := by simpa using hnew.2
      obtain ⟨hstate, hnone⟩ := ih hnew.1 hwait
      rw [EventMachine.run_snoc_fst, EventMachine.run_snoc_snd, written_append,
        resolutionsOf_append, hnone, List.nil_append]
      rcases hstate with ⟨part, hopen⟩ | hclosed
      · obtain ⟨⟨-, hnext⟩ | ⟨res, -, -, -, hnext⟩ | ⟨res, -, -, -, hnext⟩, hout⟩ :=
          hopen.step hi' hi
        · exact ⟨Or.inl ⟨_, hnext⟩, hout⟩
        · exact ⟨Or.inl ⟨_, hnext⟩, hout⟩
        · exact ⟨Or.inr hnext, hout⟩
      · exact (hclosed.step hi').imp_left Or.inr
  exact hinv.2

/-- What the results that came say of a transaction on which no block has decided. -/
inductive Waiting (cfg : EngineConfig) (tx : TxHash) (target : ℕ) (is : List Input) (s : Engine) :
    Prop
  | unanswered (h : Open cfg tx target none s) (hans : tx ∉ is.filterMap Input.answered?)
  | accepted (res : SendResult) (h : Open cfg tx target (some res.partialRecord) s)
      (hres : .sendResult res ∈ is) (htx : res.txHash = tx) (hacc : res.outcome.isAccepted)
  | rejected (res : SendResult) (h : Closed cfg tx s) (hres : .sendResult res ∈ is)
      (htx : res.txHash = tx) (hrej : ¬res.outcome.isAccepted)

theorem waiting_run (h : Open cfg tx target none s) (hnew : tx ∉ is.flatMap Input.signed)
    (honce : (is.filterMap Input.answered?).Nodup)
    (hwait : ∀ hd, .header hd ∈ is → decision cfg tx target hd = none)
    (hrun : ((engine cfg).run s is).1.running) :
    Waiting cfg tx target is ((engine cfg).run s is).1 ∧
      resolutionsOf tx (written ((engine cfg).run s is).2) = [] := by
  induction is using List.reverseRecOn with
  | nil => exact ⟨.unanswered h (by simp), rfl⟩
  | append_singleton is i ih =>
    rw [List.flatMap_append, List.mem_append, not_or] at hnew
    have hi' : tx ∉ i.signed := by simpa using hnew.2
    rw [EventMachine.run_snoc_fst] at hrun
    have hrun' := @running_of_run cfg _ [i] hrun
    rw [List.filterMap_append] at honce
    obtain ⟨honce', -, hapart⟩ := List.nodup_append.mp honce
    obtain ⟨hstate, hnone⟩ :=
      ih hnew.1 honce' (fun hd hmem => hwait hd (List.mem_append_left _ hmem)) hrun'
    rw [EventMachine.run_snoc_fst, EventMachine.run_snoc_snd, written_append,
      resolutionsOf_append, hnone, List.nil_append]
    have hi : ∀ hd, i = .header hd → ((engine cfg).run s is).1.running →
        decision cfg tx target hd = none := fun hd heq _ => hwait hd (by simp [heq])
    cases hstate with
    | unanswered hopen hans =>
      obtain ⟨hnext, hout⟩ := hopen.step hi' hi
      refine ⟨?_, hout⟩
      rcases hnext with ⟨hno | hstop, hnext⟩ | ⟨res, rfl, htx, hacc, hnext⟩ |
        ⟨res, rfl, htx, hrej, hnext⟩
      · refine .unanswered hnext ?_
        rw [List.filterMap_append, List.mem_append, not_or]
        refine ⟨hans, fun hmem => hno ?_⟩
        simpa using hmem
      · exact absurd hrun' hstop
      · exact .accepted res hnext (by simp) htx hacc
      · exact .rejected res hnext (by simp) htx hrej
    | accepted res hopen hres htx hacc =>
      have hanswered : tx ∈ is.filterMap Input.answered? :=
        List.mem_filterMap.mpr ⟨_, hres, congrArg some htx⟩
      have hother : ∀ res', i = .sendResult res' → res'.txHash ≠ tx := by
        rintro res' rfl heq
        exact hapart tx hanswered tx (by simp [Input.answered?, heq]) rfl
      obtain ⟨hnext, hout⟩ := hopen.step hi' hi
      refine ⟨?_, hout⟩
      rcases hnext with ⟨-, hnext⟩ | ⟨res', hres', htx', -⟩ | ⟨res', hres', htx', -⟩
      · exact .accepted res hnext (List.mem_append_left _ hres) htx hacc
      · exact absurd htx' (hother res' hres')
      · exact absurd htx' (hother res' hres')
    | rejected res hclosed hres htx hrej =>
      obtain ⟨hnext, hout⟩ := hclosed.step hi'
      exact ⟨.rejected res hnext (List.mem_append_left _ hres) htx hrej, hout⟩

end
end Engine
end SolanaBench.TxCutoff
