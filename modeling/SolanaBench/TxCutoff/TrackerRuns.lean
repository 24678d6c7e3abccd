import Mathlib.Algebra.GroupWithZero.Nat
import Mathlib.Algebra.Order.Group.Nat
import SolanaBench.Lib.AListEach
import SolanaBench.Lib.EventMachine
import SolanaBench.Lib.Splits
import SolanaBench.TxCutoff.Tracker

/-! The tracker over runs of its calls: what becomes of a transaction that is recorded once. -/
namespace SolanaBench.TxCutoff
namespace Tracker

/-- No target is so high that its horizon leaves `u64`. -/
def Fits (t : Tracker) : Prop := ∀ tx, (t.targets.lookup tx).getD 0 + t.lookahead < 2 ^ 64

/-! ## Calls -/

inductive Call
  | recordSent (txHash : TxHash) (targetBlock : ℕ)
  | observeBlock (blockNum : ℕ) (txHashes : List TxHash)
  | drainResolved
  deriving DecidableEq, Repr

def calls : EventMachine Tracker Call ResolvedTx where
  step t
    | .recordSent tx target => (t.recordSent tx target, [])
    | .observeBlock n txs => (t.observeBlock n txs, [])
    | .drainResolved => (t.drainResolved.2, t.drainResolved.1)

def Call.sent? : Call → Option (TxHash × ℕ)
  | .recordSent tx target => some (tx, target)
  | _ => none

def Call.blockNum? : Call → Option ℕ
  | .observeBlock n _ => some n
  | _ => none

/-- Each transaction is recorded once, with a horizon in `u64`. -/
structure RecordsOnce (lookahead : ℕ) (is : List Call) : Prop where
  bounded : lookahead < 2 ^ 64
  fresh : ((is.filterMap Call.sent?).map Prod.fst).Nodup
  fits : ∀ c ∈ is, ∀ e ∈ c.sent?, e.2 + lookahead < 2 ^ 64

/-- Blocks are observed in order, and a transaction is recorded for a later one. -/
structure InOrder (is : List Call) : Prop where
  increasing : (is.filterMap Call.blockNum?).Pairwise (· < ·)
  ahead : EverySplit (fun pre c => ∀ e ∈ c.sent?, ∀ n ∈ pre.filterMap Call.blockNum?, n < e.2) is

/-- What drains have returned of the transaction. -/
def returned (tx : TxHash) (os : List ResolvedTx) : List ResolvedTx := os.filterMap (ofTx? tx)

/-- The block contains the transaction, or is past the lookahead. -/
def Settles (lookahead : ℕ) (tx : TxHash) (target : ℕ) : Call → Prop
  | .observeBlock n txs => tx ∈ txs ∨ target + lookahead < n
  | _ => False

/-- What a block that settles the transaction makes of it. -/
def outcome (tx : TxHash) (target n : ℕ) (txs : List TxHash) : ResolvedTx :=
  if tx ∈ txs then ⟨tx, if n = target then .includedTarget else .includedLate (n - target), some n⟩
  else ⟨tx, .dropped, none⟩

section

variable {lookahead target n : ℕ} {t : Tracker} {tx : TxHash} {txs : List TxHash} {c : Call}
  {is pre post : List Call} {r : ResolvedTx}

/-! ## One call -/

/-- Everything resolved is filed under its own hash, and all horizons are in `u64`. -/
structure Kept (lookahead : ℕ) (t : Tracker) : Prop where
  lookahead : t.lookahead = lookahead
  resolved : ∀ tx, ∀ r ∈ t.resolved.lookup tx, r.txHash = tx
  fits : t.Fits

theorem Kept.step (h : Kept lookahead t) (hfits : ∀ e ∈ c.sent?, e.2 + lookahead < 2 ^ 64) :
    Kept lookahead (calls.step t c).1 := by
  cases c with
  | recordSent tx target =>
    refine ⟨h.lookahead, h.resolved, fun tx' => ?_⟩
    change ((t.targets.insert tx target).lookup tx').getD 0 + t.lookahead < 2 ^ 64
    rw [AList.lookup_insert_eq]
    split
    · rw [h.lookahead]
      exact hfits (tx, target) rfl
    · exact h.fits tx'
  | observeBlock n txs =>
    refine ⟨h.lookahead, fun tx r hr => ?_, h.fits⟩
    change r ∈ (t.observeBlock n txs).resolved.lookup tx at hr
    rw [observeBlock_resolved] at hr
    rcases Option.or_eq_some_iff.mp hr with hv | ⟨-, hold⟩
    · obtain ⟨st, -, hst⟩ := Option.bind_eq_some_iff.mp hv
      exact txHash_of_verdict hst
    · exact h.resolved tx r hold
  | drainResolved => exact ⟨h.lookahead, fun _ _ => nofun, h.fits⟩

/-- What the tracker holds of a transaction: its status, and its resolution until it is drained. -/
structure Holds (tx : TxHash) (st : Option InclusionStatus) (r : Option ResolvedTx) (t : Tracker) :
    Prop where
  states : t.states.lookup tx = st
  resolved : t.resolved.lookup tx = r
  targets : ∀ target, st = some (.pending target) → t.targets.lookup tx = some target

theorem Holds.drain {st : Option InclusionStatus} {o : Option ResolvedTx} (h : Holds tx st o t)
    (hkept : Kept lookahead t) : Holds tx st none (calls.step t .drainResolved).1 ∧
      returned tx (calls.step t .drainResolved).2 = o.toList :=
  ⟨⟨h.states, rfl, h.targets⟩, (drainResolved_ofTx hkept.resolved tx).trans (by rw [h.resolved])⟩

theorem Holds.record {st : Option InclusionStatus} {o : Option ResolvedTx} (h : Holds tx st o t)
    {tx' : TxHash} (hne : tx ≠ tx') : Holds tx st o (calls.step t (.recordSent tx' target)).1 where
  states := (AList.lookup_insert_ne hne).trans h.states
  resolved := h.resolved
  targets T hT := (AList.lookup_insert_ne hne).trans (h.targets T hT)

/-- What a block says of the transaction goes into its status and its resolution. -/
theorem Holds.observe {st : Option InclusionStatus} {o v : Option ResolvedTx} (h : Holds tx st o t)
    (hv : t.verdictOf n txs tx = v)
    (hpending : ∀ r ∈ v, ∀ target, r.status ≠ .pending target) :
    Holds tx ((v.map ResolvedTx.status).or st) (v.or o) (calls.step t (.observeBlock n txs)).1 := by
  refine ⟨?_, ?_, fun T hT => ?_⟩
  · change (t.observeBlock n txs).states.lookup tx = _
    rw [observeBlock_states, hv, h.states]
  · change (t.observeBlock n txs).resolved.lookup tx = _
    rw [observeBlock_resolved, hv, h.resolved]
  · cases v with
    | none => exact h.targets T hT
    | some r => exact absurd (Option.some.inj hT) (hpending r rfl T)

/-- A transaction that is not pending is left alone. -/
theorem Holds.observe_idle {st : Option InclusionStatus} {o : Option ResolvedTx}
    (h : Holds tx st o t) (hst : ∀ target, st ≠ some (.pending target)) :
    Holds tx st o (calls.step t (.observeBlock n txs)).1 := by
  have hv : t.verdictOf n txs tx = none := by
    unfold verdictOf
    rw [h.states]
    cases st with
    | none => rfl
    | some st =>
      cases st with
      | pending target => exact absurd rfl (hst target)
      | _ => rfl
  have hnext := h.observe hv nofun
  exact hnext

theorem verdictOf_of_pending (h : Holds tx (some (.pending target)) none t)
    (hkept : Kept lookahead t) : t.verdictOf n txs tx =
      verdict lookahead n txs tx target (.pending target) := by
  unfold verdictOf
  rw [h.states, h.targets target rfl, hkept.lookahead]
  rfl

/-- The horizon of a transaction that is waited for is in `u64`. -/
theorem Holds.horizon (h : Holds tx (some (.pending target)) none t) (hkept : Kept lookahead t) :
    (target + lookahead) % 2 ^ 64 = target + lookahead := by
  have hfits := hkept.fits tx
  rw [h.targets target rfl, hkept.lookahead] at hfits
  exact Nat.mod_eq_of_lt hfits

theorem Holds.observe_waits (h : Holds tx (some (.pending target)) none t)
    (hkept : Kept lookahead t) (hno : ¬Settles lookahead tx target (.observeBlock n txs)) :
    Holds tx (some (.pending target)) none (calls.step t (.observeBlock n txs)).1 := by
  have hv : t.verdictOf n txs tx = none := by
    obtain ⟨hmem, hpast⟩ := not_or.mp hno
    rw [verdictOf_of_pending h hkept]
    simp only [verdict, h.horizon hkept, hmem, if_false, gt_iff_lt, hpast]
  exact h.observe hv nofun

theorem status_outcome_ne (tx : TxHash) (target n : ℕ) (txs : List TxHash) (T : ℕ) :
    (outcome tx target n txs).status ≠ .pending T := by
  unfold outcome
  split
  · dsimp only
    split <;> exact nofun
  · exact nofun

theorem Holds.observe_settles (h : Holds tx (some (.pending target)) none t)
    (hkept : Kept lookahead t) (hsettles : Settles lookahead tx target (.observeBlock n txs)) :
    Holds tx (some (outcome tx target n txs).status) (some (outcome tx target n txs))
      (calls.step t (.observeBlock n txs)).1 := by
  have hv : t.verdictOf n txs tx = some (outcome tx target n txs) := by
    rw [verdictOf_of_pending h hkept]
    unfold verdict outcome
    by_cases hmem : tx ∈ txs
    · simp [hmem]
    · have hpast : target + lookahead < n := hsettles.resolve_left hmem
      simp only [h.horizon hkept, hmem, if_false, gt_iff_lt, hpast, if_true]
  refine h.observe hv ?_
  rintro r hr
  cases hr
  exact status_outcome_ne tx target n txs

/-! ## Runs -/

theorem returned_append (os ps : List ResolvedTx) :
    returned tx (os ++ ps) = returned tx os ++ returned tx ps := List.filterMap_append

theorem kept_run (h : Kept lookahead t)
    (hfits : ∀ c ∈ is, ∀ e ∈ c.sent?, e.2 + lookahead < 2 ^ 64) : Kept lookahead (calls.run t is).1 := by
  induction is generalizing t with
  | nil => exact h
  | cons c is ih =>
    exact ih (h.step (hfits c List.mem_cons_self)) fun d hd => hfits d (List.mem_cons_of_mem c hd)

/-- As long as no block says anything of the transaction. -/
theorem Holds.run {st : Option InclusionStatus} (h : Holds tx st none t) (hkept : Kept lookahead t)
    (hother : ∀ c ∈ is, ∀ e ∈ c.sent?, e.1 ≠ tx)
    (hfits : ∀ c ∈ is, ∀ e ∈ c.sent?, e.2 + lookahead < 2 ^ 64)
    (hblock : ∀ n txs, .observeBlock n txs ∈ is → ∀ t, Kept lookahead t → Holds tx st none t →
      Holds tx st none (calls.step t (.observeBlock n txs)).1) :
    Holds tx st none (calls.run t is).1 ∧ returned tx (calls.run t is).2 = [] := by
  induction is generalizing t with
  | nil => exact ⟨h, rfl⟩
  | cons c is ih =>
    have hstep : Holds tx st none (calls.step t c).1 ∧ returned tx (calls.step t c).2 = [] := by
      cases c with
      | recordSent tx' target =>
        exact ⟨h.record (hother _ List.mem_cons_self (tx', target) rfl).symm, rfl⟩
      | observeBlock n txs => exact ⟨hblock n txs List.mem_cons_self t hkept h, rfl⟩
      | drainResolved => exact h.drain hkept
    obtain ⟨hrest, hquiet⟩ := ih hstep.1 (hkept.step (hfits c List.mem_cons_self))
      (fun d hd => hother d (List.mem_cons_of_mem c hd))
      (fun d hd => hfits d (List.mem_cons_of_mem c hd))
      fun n txs hmem => hblock n txs (List.mem_cons_of_mem c hmem)
    rw [EventMachine.run_cons_fst, EventMachine.run_cons_snd, returned_append, hstep.2, hquiet]
    exact ⟨hrest, rfl⟩

/-- A resolution is returned by the next drain, and by no other. -/
theorem Holds.run_settled (h : Holds tx (some r.status) (some r) t) (hkept : Kept lookahead t)
    (hstatus : ∀ target, r.status ≠ .pending target)
    (hother : ∀ c ∈ is, ∀ e ∈ c.sent?, e.1 ≠ tx)
    (hfits : ∀ c ∈ is, ∀ e ∈ c.sent?, e.2 + lookahead < 2 ^ 64) :
    (calls.run t is).1.states.lookup tx = some r.status ∧
      returned tx (calls.run t is).2 = if .drainResolved ∈ is then [r] else [] := by
  have hidle : ∀ target, some r.status ≠ some (.pending target) := fun target heq =>
    hstatus target (Option.some.inj heq)
  induction is generalizing t with
  | nil => exact ⟨h.states, rfl⟩
  | cons c is ih =>
    have hkept' := hkept.step (hfits c List.mem_cons_self)
    have hother' : ∀ d ∈ is, ∀ e ∈ d.sent?, e.1 ≠ tx := fun d hd => hother d (List.mem_cons_of_mem c hd)
    have hfits' : ∀ d ∈ is, ∀ e ∈ d.sent?, e.2 + lookahead < 2 ^ 64 := fun d hd =>
      hfits d (List.mem_cons_of_mem c hd)
    rw [EventMachine.run_cons_fst, EventMachine.run_cons_snd, returned_append]
    cases c with
    | recordSent tx' target =>
      have hnext : Holds tx (some r.status) (some r) (calls.step t (.recordSent tx' target)).1 :=
        h.record (hother _ List.mem_cons_self (tx', target) rfl).symm
      obtain ⟨hstates, hreturned⟩ := ih hnext hkept' hother' hfits'
      exact ⟨hstates, by simpa [calls, returned] using hreturned⟩
    | observeBlock n txs =>
      obtain ⟨hstates, hreturned⟩ := ih (h.observe_idle hidle) hkept' hother' hfits'
      exact ⟨hstates, by simpa [calls, returned] using hreturned⟩
    | drainResolved =>
      obtain ⟨hnext, hout⟩ := h.drain hkept
      obtain ⟨hstates, hquiet⟩ := hnext.run hkept' hother' hfits' fun n txs _ t hkept h =>
        h.observe_idle hidle
      rw [hout, hquiet]
      exact ⟨hstates.states, by simp⟩

theorem RecordsOnce.others (h : RecordsOnce lookahead (pre ++ .recordSent tx target :: post)) :
    (∀ c ∈ pre, ∀ e ∈ c.sent?, e.1 ≠ tx) ∧ ∀ c ∈ post, ∀ e ∈ c.sent?, e.1 ≠ tx := by
  have hfresh := h.fresh
  rw [List.filterMap_append, List.map_append] at hfresh
  obtain ⟨-, hcons, hapart⟩ := List.nodup_append.mp hfresh
  obtain ⟨hpost, -⟩ := List.nodup_cons.mp hcons
  constructor
  · intro c hc e he heq
    have hmem : e ∈ pre.filterMap Call.sent? := List.mem_filterMap.mpr ⟨c, hc, he⟩
    exact hapart e.1 (List.mem_map_of_mem hmem) tx List.mem_cons_self heq
  · intro c hc e he heq
    have hmem : e ∈ post.filterMap Call.sent? := List.mem_filterMap.mpr ⟨c, hc, he⟩
    exact hpost (List.mem_map.mpr ⟨e, hmem, heq⟩)

/-- The tracker right after the transaction is recorded. -/
theorem RecordsOnce.recorded (h : RecordsOnce lookahead (pre ++ .recordSent tx target :: post)) :
    ∃ t, (∀ is, (calls.run { lookahead } (pre ++ .recordSent tx target :: is)).1 =
        (calls.run t is).1 ∧
      returned tx (calls.run { lookahead } (pre ++ .recordSent tx target :: is)).2 =
        returned tx (calls.run t is).2) ∧
      Kept lookahead t ∧ Holds tx (some (.pending target)) none t := by
  have hfits : ∀ c ∈ pre, ∀ e ∈ c.sent?, e.2 + lookahead < 2 ^ 64 := fun c hc =>
    h.fits c (List.mem_append_left _ hc)
  have hkept : Kept lookahead { lookahead } := by
    refine ⟨rfl, fun _ _ => nofun, fun tx => ?_⟩
    change 0 + lookahead < 2 ^ 64
    rw [Nat.zero_add]
    exact h.bounded
  have hpre := kept_run hkept hfits
  have hstart : Holds tx none none { lookahead } := ⟨rfl, rfl, nofun⟩
  obtain ⟨hunknown, hquiet⟩ := hstart.run hkept h.others.1 hfits
    fun n txs _ t hkept h => h.observe_idle nofun
  refine ⟨(calls.step (calls.run { lookahead } pre).1 (.recordSent tx target)).1, fun is => ?_,
    hpre.step (h.fits _ (by simp)), ⟨AList.lookup_insert _, hunknown.resolved, fun T hT => ?_⟩⟩
  · rw [EventMachine.run_append, EventMachine.run_cons]
    refine ⟨rfl, ?_⟩
    rw [returned_append, hquiet]
    rfl
  · cases hT
    exact AList.lookup_insert _

/-- The transaction stays pending as long as no block settles it. -/
theorem RecordsOnce.waits (h : RecordsOnce lookahead (pre ++ .recordSent tx target :: post))
    {mid : List Call} (hmid : ∀ c ∈ mid, c ∈ post) (hno : ∀ c ∈ mid, ¬Settles lookahead tx target c)
    (hkept : Kept lookahead t) (hholds : Holds tx (some (.pending target)) none t) :
    Holds tx (some (.pending target)) none (calls.run t mid).1 ∧
      returned tx (calls.run t mid).2 = [] :=
  hholds.run hkept (fun c hc => h.others.2 c (hmid c hc))
    (fun c hc => h.fits c (List.mem_append_right _ (List.mem_cons_of_mem _ (hmid c hc))))
    fun _ _ hmem _ hkept hholds => hholds.observe_waits hkept (hno _ hmem)

end

/-- A transaction recorded once stays pending until a block contains it or is past the
lookahead. That block settles its status for good, and drains return it once. -/
theorem classified_once (lookahead : ℕ) (pre post : List Call) (tx : TxHash) (target : ℕ)
    (h : RecordsOnce lookahead (pre ++ .recordSent tx target :: post)) :
    ((∀ c ∈ post, ¬Settles lookahead tx target c) →
      (calls.run { lookahead } (pre ++ .recordSent tx target :: post)).1.states.lookup tx =
          some (.pending target) ∧
        returned tx (calls.run { lookahead } (pre ++ .recordSent tx target :: post)).2 = []) ∧
    ∀ mid n txs rest, post = mid ++ .observeBlock n txs :: rest →
      (∀ c ∈ mid, ¬Settles lookahead tx target c) →
      Settles lookahead tx target (.observeBlock n txs) →
        (calls.run { lookahead } (pre ++ .recordSent tx target :: post)).1.states.lookup tx =
            some (outcome tx target n txs).status ∧
          returned tx (calls.run { lookahead } (pre ++ .recordSent tx target :: post)).2 =
            if .drainResolved ∈ rest then [outcome tx target n txs] else [] := by
  obtain ⟨t, hrun, hkept, hholds⟩ := h.recorded
  rw [(hrun post).1, (hrun post).2]
  constructor
  · intro hno
    obtain ⟨hwaits, hquiet⟩ := h.waits (fun c hc => hc) hno hkept hholds
    exact ⟨hwaits.states, hquiet⟩
  · rintro mid n txs rest rfl hno hsettles
    have hfits : ∀ c ∈ mid ++ .observeBlock n txs :: rest, ∀ e ∈ c.sent?, e.2 + lookahead < 2 ^ 64 :=
      fun c hc => h.fits c (List.mem_append_right _ (List.mem_cons_of_mem _ hc))
    obtain ⟨hwaits, hquiet⟩ := h.waits (fun c hc => List.mem_append_left _ hc) hno hkept hholds
    have hmid : Kept lookahead (calls.run t mid).1 :=
      kept_run hkept fun c hc => hfits c (List.mem_append_left _ hc)
    obtain ⟨hstates, hreturned⟩ := (hwaits.observe_settles hmid hsettles).run_settled
      (hmid.step (hfits _ (by simp))) (status_outcome_ne tx target n txs)
      (fun c hc => h.others.2 c (List.mem_append_right _ (List.mem_cons_of_mem _ hc)))
      fun c hc => hfits c (List.mem_append_right _ (List.mem_cons_of_mem _ hc))
    rw [EventMachine.run_append, EventMachine.run_cons]
    refine ⟨hstates, ?_⟩
    rw [returned_append, returned_append, hquiet, hreturned]
    rfl

/-- Two blocks late, and drained. -/
theorem classified_once_late :
    (calls.run ⟨10, ∅, ∅, ∅⟩ [.recordSent 7 101, .observeBlock 101 [8], .observeBlock 103 [7],
        .drainResolved]).1.states.lookup 7 = some (.includedLate 2) ∧
      returned 7 (calls.run ⟨10, ∅, ∅, ∅⟩ [.recordSent 7 101, .observeBlock 101 [8],
        .observeBlock 103 [7], .drainResolved]).2 = [⟨7, .includedLate 2, some 103⟩] := by
  refine (classified_once 10 [] [.observeBlock 101 [8], .observeBlock 103 [7], .drainResolved] 7 101
    ⟨by decide, by decide, by decide⟩).2 [.observeBlock 101 [8]] 103 [7] [.drainResolved] rfl ?_ ?_
  · simp [Settles]
  · simp [Settles]

/-- The transaction comes in a block before its target, and, past `u64`, the target block is
already too late. -/
theorem early_block_settles :
    (¬∀ (lookahead : ℕ) (pre post : List Call) (tx : TxHash) (target : ℕ),
      RecordsOnce lookahead (pre ++ .recordSent tx target :: post) →
        InOrder (pre ++ .recordSent tx target :: post) →
          (∀ n txs, .observeBlock n txs ∈ post → ¬(target ≤ n ∧ tx ∈ txs ∨ target + lookahead < n)) →
            (calls.run { lookahead } (pre ++ .recordSent tx target :: post)).1.states.lookup tx =
              some (.pending target)) ∧
      ¬∀ (lookahead : ℕ) (pre post : List Call) (tx : TxHash) (target : ℕ), lookahead < 2 ^ 64 →
        (((pre ++ .recordSent tx target :: post).filterMap Call.sent?).map Prod.fst).Nodup →
          InOrder (pre ++ .recordSent tx target :: post) →
            (∀ c ∈ post, ¬Settles lookahead tx target c) →
              (calls.run { lookahead } (pre ++ .recordSent tx target :: post)).1.states.lookup tx =
                some (.pending target) := by
  constructor
  · intro h
    have hpending := h 10 [] [.observeBlock 103 [7]] 7 105 ⟨by decide, by decide, by decide⟩
      ⟨by decide, by decide⟩ (by simp)
    revert hpending
    decide
  · intro h
    have hpending := h (2 ^ 64 - 1) [] [.observeBlock 101 []] 7 101 (by decide) (by decide)
      ⟨by decide, by decide⟩ (by simp [Settles])
    revert hpending
    decide

end Tracker
end SolanaBench.TxCutoff
