import Mathlib.Algebra.GroupWithZero.Nat
import Mathlib.Data.List.AList
import Mathlib.Data.Nat.Notation
import SolanaBench.Lib.AListRetain

/-! The inclusion tracker of the transaction cutoff bench. -/
namespace SolanaBench.TxCutoff

/-- A `B256`. -/
abbrev TxHash := ℕ

inductive InclusionStatus
  | pending (targetBlock : ℕ)
  | includedTarget
  | includedLate (offset : ℕ)
  | dropped
  | sendError (err : String)
  deriving DecidableEq, Repr

structure ResolvedTx where
  txHash : TxHash
  status : InclusionStatus
  includedBlock : Option ℕ
  deriving DecidableEq, Repr

structure Tracker where
  lookahead : ℕ
  states : AList (fun _ : TxHash => InclusionStatus) := ∅
  targets : AList (fun _ : TxHash => ℕ) := ∅
  resolved : AList (fun _ : TxHash => ResolvedTx) := ∅

namespace Tracker

def recordSent (t : Tracker) (txHash : TxHash) (targetBlock : ℕ) : Tracker :=
  { t with
    states := t.states.insert txHash (.pending targetBlock)
    targets := t.targets.insert txHash targetBlock }

def recordSendError (t : Tracker) (txHash : TxHash) (err : String) : Tracker :=
  { t with
    states := t.states.insert txHash (.sendError err)
    resolved := t.resolved.insert txHash ⟨txHash, .sendError err, none⟩ }

/-- What a block says of a transaction in a given state. The sum wraps in `u64`. -/
def verdict (lookahead blockNum : ℕ) (txHashes : List TxHash) (tx : TxHash) (target : ℕ) :
    InclusionStatus → Option ResolvedTx
  | .pending _ =>
    if tx ∈ txHashes then
      some ⟨tx, if blockNum = target then .includedTarget else .includedLate (blockNum - target),
        some blockNum⟩
    else if blockNum > (target + lookahead) % 2 ^ 64 then some ⟨tx, .dropped, none⟩
    else none
  | _ => none

/-- `recordSent` gives each pending transaction its target. -/
def newlyResolved (t : Tracker) (blockNum : ℕ) (txHashes : List TxHash) : List ResolvedTx :=
  t.states.entries.flatMap fun e =>
    (verdict t.lookahead blockNum txHashes e.1 ((t.targets.lookup e.1).getD 0) e.2).toList

def observeBlock (t : Tracker) (blockNum : ℕ) (txHashes : List TxHash) : Tracker :=
  let newly := t.newlyResolved blockNum txHashes
  { t with
    states := t.states.insertAll (newly.map fun r => (r.txHash, r.status))
    resolved := t.resolved.insertAll (newly.map fun r => (r.txHash, r)) }

def drainResolved (t : Tracker) : List ResolvedTx × Tracker :=
  (t.resolved.entries.map fun e => e.2, { t with resolved := ∅ })

/-! ## One transaction -/

section

variable {t : Tracker} {tx : TxHash} {blockNum : ℕ} {txHashes : List TxHash}

def ofTx? (tx : TxHash) (r : ResolvedTx) : Option ResolvedTx :=
  if r.txHash = tx then some r else none

theorem txHash_of_verdict {lookahead target : ℕ} {st : InclusionStatus} {r : ResolvedTx}
    (h : verdict lookahead blockNum txHashes tx target st = some r) : r.txHash = tx := by
  unfold verdict at h
  split at h
  · split at h
    · rw [← Option.some.inj h]
    · split at h
      · rw [← Option.some.inj h]
      · cases h
  · cases h

/-- What a block says of `tx`. -/
def verdictOf (t : Tracker) (blockNum : ℕ) (txHashes : List TxHash) (tx : TxHash) :
    Option ResolvedTx :=
  (t.states.lookup tx).bind
    (verdict t.lookahead blockNum txHashes tx ((t.targets.lookup tx).getD 0))

theorem newlyResolved_ofTx : (t.newlyResolved blockNum txHashes).filterMap (ofTx? tx) =
    (t.verdictOf blockNum txHashes tx).toList := by
  have hview := AList.filterMap_flatMap_entries t.states
    (fun tx' st =>
      (verdict t.lookahead blockNum txHashes tx' ((t.targets.lookup tx').getD 0) st).toList)
    (ofTx? tx) tx fun e _ hne => by
      cases hv : verdict t.lookahead blockNum txHashes e.1 ((t.targets.lookup e.1).getD 0) e.2 with
      | none => rfl
      | some r =>
        have hr := txHash_of_verdict hv
        simp [ofTx?, hr, hne]
  refine hview.trans ?_
  unfold verdictOf
  cases t.states.lookup tx with
  | none => rfl
  | some st =>
    cases hv : verdict t.lookahead blockNum txHashes tx ((t.targets.lookup tx).getD 0) st with
    | none => simp [hv]
    | some r =>
      have hr := txHash_of_verdict hv
      simp [hv, ofTx?, hr]

theorem observeBlock_states : (t.observeBlock blockNum txHashes).states.lookup tx =
    ((t.verdictOf blockNum txHashes tx).map ResolvedTx.status).or (t.states.lookup tx) := by
  unfold observeBlock
  dsimp only
  rw [AList.lookup_insertAll, List.filterMap_map]
  have hview : (fun r : ResolvedTx => if r.txHash = tx then some r.status else none) =
      fun r => (ofTx? tx r).map ResolvedTx.status := by
    funext r
    unfold ofTx?
    split <;> rfl
  have hcomp : (t.newlyResolved blockNum txHashes).filterMap
      ((fun e : TxHash × InclusionStatus => if e.1 = tx then some e.2 else none) ∘
        fun r => (r.txHash, r.status)) =
      ((t.newlyResolved blockNum txHashes).filterMap (ofTx? tx)).map ResolvedTx.status := by
    rw [List.map_filterMap, ← hview]
    rfl
  rw [hcomp, newlyResolved_ofTx]
  cases t.verdictOf blockNum txHashes tx <;> rfl

theorem observeBlock_resolved : (t.observeBlock blockNum txHashes).resolved.lookup tx =
    (t.verdictOf blockNum txHashes tx).or (t.resolved.lookup tx) := by
  unfold observeBlock
  dsimp only
  rw [AList.lookup_insertAll, List.filterMap_map]
  have hcomp : (t.newlyResolved blockNum txHashes).filterMap
      ((fun e : TxHash × ResolvedTx => if e.1 = tx then some e.2 else none) ∘
        fun r => (r.txHash, r)) = (t.newlyResolved blockNum txHashes).filterMap (ofTx? tx) := rfl
  rw [hcomp, newlyResolved_ofTx]
  cases t.verdictOf blockNum txHashes tx <;> rfl

/-- Where everything resolved is filed under its own hash, a drain returns it once. -/
theorem drainResolved_ofTx (h : ∀ tx, ∀ r ∈ t.resolved.lookup tx, r.txHash = tx) (tx : TxHash) :
    t.drainResolved.1.filterMap (ofTx? tx) = (t.resolved.lookup tx).toList := by
  have hview := AList.filterMap_flatMap_entries t.resolved (fun _ r => [r]) (ofTx? tx) tx
    fun e he hne => by
      have hr : e.2.txHash = e.1 := h e.1 e.2 (AList.mem_lookup_iff.mpr he)
      simp [ofTx?, hr, hne]
  unfold drainResolved
  rw [List.map_eq_flatMap]
  refine hview.trans ?_
  cases hr : t.resolved.lookup tx with
  | none => rfl
  | some r => simp [ofTx?, h tx r hr]

end
end Tracker
end SolanaBench.TxCutoff
