import Mathlib.Data.List.AList
import SolanaBench.FanOut.Schedule
import SolanaBench.Lib.Effect
import SolanaBench.Nonce.Manager

/-! The preparer's work on one schedule entry: a signed variant for every enabled sender,
put in the pool one by one under `(slot, tick, sender_id)`. Signing and hashing belong to
other packages and are parameters. -/
namespace SolanaBench.FanOut

open Nonce

inductive SenderKind
  | mock | helius | jito | jitoBundle | nozomi | syncro | astralane | slot0 | allenharkQuic
  | allenharkHttps | nextblock | nextblockQuic | bloxroute | blockrazorHttp | blockrazorGrpc
  | triton | harmonic
  deriving DecidableEq, Repr

/-- The test both the preparer and the transaction builder make. -/
def SenderKind.needsTip : SenderKind → Bool
  | triton | harmonic | mock => false
  | _ => true

/-! ## Memos -/

namespace Memo

def BASE : ℕ := 0x21
def MAX_SENDER_ID : ℕ := 0x7E - BASE

inductive MemoError
  | senderIdTooLarge (senderId : ℕ)
  deriving DecidableEq, Repr

def encode (senderId : ℕ) : Except MemoError (List ℕ) :=
  if senderId > MAX_SENDER_ID then .error (.senderIdTooLarge senderId) else .ok [BASE + senderId]

end Memo

/-! ## Transactions -/

inductive Instruction
  | advanceNonceAccount (noncePubkey authorized : Pubkey)
  | transfer (source target : Pubkey) (lamports : ℕ)
  | setComputeUnitLimit (units : ℕ)
  | setComputeUnitPrice (microLamports : ℕ)
  | memo (data : List ℕ)
  deriving DecidableEq, Repr

structure Message where
  payer : Pubkey
  instructions : List Instruction
  recentBlockhash : Hash
  deriving DecidableEq, Repr

structure Transaction where
  signatures : List Signature
  message : Message
  deriving DecidableEq, Repr

/-- The nonce account a nonced transaction advances and the value it must find there. -/
def Transaction.durableNonce (tx : Transaction) : Option (Pubkey × Hash) :=
  match tx.message.instructions with
  | .advanceNonceAccount noncePubkey _ :: _ => some (noncePubkey, tx.message.recentBlockhash)
  | _ => none

structure Signing where
  sign : Message → Signature
  messageHash : Message → Hash

namespace TxBuilder

structure VariantParams where
  noncePubkey : Pubkey
  nonceBlockhash : Hash
  payer : Pubkey
  senderId : ℕ
  senderKind : SenderKind
  tipAccount : Option Pubkey
  tipLamports : ℕ
  priorityFeeMicrolamports : ℕ
  computeUnitLimit : ℕ

structure VariantTx where
  tx : Transaction
  signature : Signature
  messageHash : Hash
  deriving DecidableEq, Repr

inductive BuildError
  | memo (e : Memo.MemoError)
  | missingTipAccount (kind : SenderKind)
  deriving DecidableEq, Repr

def instructions (p : VariantParams) (memoBytes : List ℕ) : List Instruction :=
  [.advanceNonceAccount p.noncePubkey p.payer, .transfer p.payer p.payer (1 + p.senderId)] ++
    (p.tipAccount.map fun tip => Instruction.transfer p.payer tip p.tipLamports).toList ++
    [.setComputeUnitLimit p.computeUnitLimit, .setComputeUnitPrice p.priorityFeeMicrolamports,
      .memo memoBytes]

def buildVariant (signer : Signing) (p : VariantParams) : Except BuildError VariantTx :=
  if p.senderKind.needsTip ∧ p.tipAccount = none then .error (.missingTipAccount p.senderKind)
  else
    match Memo.encode p.senderId with
    | .error e => .error (.memo e)
    | .ok memoBytes =>
      let message : Message := ⟨p.payer, instructions p memoBytes, p.nonceBlockhash⟩
      .ok ⟨⟨[signer.sign message], message⟩, signer.sign message, signer.messageHash message⟩

/-- The nonce instruction comes first, and the blockhash is the nonce value. -/
theorem durableNonce_buildVariant {signer : Signing} {p : VariantParams} {v : VariantTx}
    (h : buildVariant signer p = .ok v) :
    v.tx.durableNonce = some (p.noncePubkey, p.nonceBlockhash) := by
  unfold buildVariant at h
  split_ifs at h
  cases hmemo : Memo.encode p.senderId with
  | error e => simp [hmemo] at h
  | ok memoBytes =>
    rw [hmemo] at h
    obtain rfl := Except.ok.inj h
    rfl

end TxBuilder

/-! ## The pool -/

/-- What `take_ready` hands to the preparer. -/
structure TakenNonce where
  id : NonceId
  pubkey : Pubkey
  blockhash : Hash
  deriving DecidableEq, Repr

/-- A pooled variant. The source keeps the first four fields; `nonce` names the nonce the
transaction was signed with. -/
structure PreSignedTx where
  tx : Transaction
  messageHash : Hash
  preparedAt : Instant
  poolReadyAt : Instant
  nonce : TakenNonce
  signed : tx.durableNonce = some (nonce.pubkey, nonce.blockhash)
  deriving DecidableEq, Repr

abbrev PoolKey := ScheduleEntry × ℕ

structure TxPool where
  map : AList (fun _ : PoolKey => PreSignedTx) := ∅

namespace TxPool

/-- The second component says whether the key was free. -/
def insert (p : TxPool) (slot tick senderId : ℕ) (tx : PreSignedTx) : TxPool × Bool :=
  (⟨p.map.insert (⟨slot, tick⟩, senderId) tx⟩, (p.map.lookup (⟨slot, tick⟩, senderId)).isNone)

/-- All variants of a `(slot, tick)` leave the pool. -/
def takeAllFor (p : TxPool) (slot tick : ℕ) : TxPool × List (ℕ × PreSignedTx) :=
  let found := p.map.entries.filter fun e => e.1.1 = ⟨slot, tick⟩
  (⟨⟨p.map.entries.filter fun e => e.1.1 ≠ ⟨slot, tick⟩,
    p.map.nodupKeys.sublist List.filter_sublist⟩⟩, found.map fun e => (e.1.2, e.2))

theorem mem_takeAllFor {p : TxPool} {slot tick : ℕ} {v : ℕ × PreSignedTx}
    (h : v ∈ (p.takeAllFor slot tick).2) : ⟨(⟨slot, tick⟩, v.1), v.2⟩ ∈ p.map.entries := by
  obtain ⟨⟨⟨entry, senderId⟩, tx⟩, he, rfl⟩ := List.mem_map.mp h
  obtain ⟨hmem, hkey⟩ := List.mem_filter.mp he
  obtain rfl : entry = ⟨slot, tick⟩ := by simpa using hkey
  exact hmem

end TxPool

/-! ## Preparing -/

structure TipAccountRotator where
  accounts : List Pubkey
  cursor : ℕ := 0
  deriving DecidableEq, Repr

/-- The accounts in turn; the cursor is a `usize`. -/
def TipAccountRotator.next (r : TipAccountRotator) : TipAccountRotator × Option Pubkey :=
  if r.accounts = [] then (r, none)
  else ({ r with cursor := (r.cursor + 1) % 2 ^ 64 }, r.accounts[r.cursor % r.accounts.length]?)

structure SenderConfig where
  id : ℕ
  kind : SenderKind
  tipLamports : ℕ
  enabled : Bool
  deriving DecidableEq, Repr

structure PreparerConfig where
  senders : List SenderConfig
  authority : Pubkey
  priorityFeeMicrolamports : ℕ
  computeUnitLimit : ℕ
  signing : Signing

abbrev Rotators := AList fun _ : ℕ => TipAccountRotator

inductive BenchCounter
  | preparerSigningFail | poolEmpty
  deriving DecidableEq, Repr

namespace Preparer

/-- The entry under way and the senders still to sign for. -/
structure Work where
  entry : ScheduleEntry
  nonce : TakenNonce
  preparedAt : Instant
  senders : List SenderConfig
  deriving DecidableEq, Repr

def nextTip (rotators : Rotators) (senderId : ℕ) : Rotators × Option Pubkey :=
  match rotators.lookup senderId with
  | none => (rotators, none)
  | some r => (rotators.insert senderId r.next.1, r.next.2)

def variantParams (cfg : PreparerConfig) (w : Work) (sc : SenderConfig)
    (tipAccount : Option Pubkey) : TxBuilder.VariantParams where
  noncePubkey := w.nonce.pubkey
  nonceBlockhash := w.nonce.blockhash
  payer := cfg.authority
  senderId := sc.id
  senderKind := sc.kind
  tipAccount := tipAccount
  tipLamports := sc.tipLamports
  priorityFeeMicrolamports := cfg.priorityFeeMicrolamports
  computeUnitLimit := cfg.computeUnitLimit

/-- The variant for one sender, or an error to count; nothing where a tip is needed and
there is no account for it. -/
def signVariant (cfg : PreparerConfig) (w : Work) (sc : SenderConfig) (tipAccount : Option Pubkey)
    (now : Instant) : Option (Except TxBuilder.BuildError PreSignedTx) :=
  if sc.kind.needsTip ∧ tipAccount = none then none
  else
    match h : TxBuilder.buildVariant cfg.signing (variantParams cfg w sc tipAccount) with
    | .error e => some (.error e)
    | .ok v => some (.ok
      ⟨v.tx, v.messageHash, w.preparedAt, now, w.nonce, TxBuilder.durableNonce_buildVariant h⟩)

/-- The tip rotator of an enabled sender advances even when no variant is built. -/
def prepareSender (cfg : PreparerConfig) (rotators : Rotators) (pool : TxPool) (w : Work)
    (sc : SenderConfig) (now : Instant) : Rotators × TxPool × List BenchCounter :=
  if sc.enabled then
    let tip := nextTip rotators sc.id
    match signVariant cfg w sc tip.2 now with
    | none => (tip.1, pool, [])
    | some (.error _) => (tip.1, pool, [.preparerSigningFail])
    | some (.ok pre) => (tip.1, (pool.insert w.entry.slot w.entry.tick sc.id pre).1, [])
  else (rotators, pool, [])

theorem nonce_signVariant {cfg : PreparerConfig} {w : Work} {sc : SenderConfig}
    {tipAccount : Option Pubkey} {now : Instant} {pre : PreSignedTx}
    (h : signVariant cfg w sc tipAccount now = some (.ok pre)) : pre.nonce = w.nonce := by
  unfold signVariant at h
  split_ifs at h
  split at h
  · cases h
  · obtain rfl := Except.ok.inj (Option.some.inj h)
    rfl

/-- A variant in the pool was there before or is signed with the nonce of the entry. -/
theorem mem_prepareSender {cfg : PreparerConfig} {rotators : Rotators} {pool : TxPool} {w : Work}
    {sc : SenderConfig} {now : Instant} {e : Sigma fun _ : PoolKey => PreSignedTx}
    (h : e ∈ (prepareSender cfg rotators pool w sc now).2.1.map.entries) :
    e ∈ pool.map.entries ∨ e.1.1 = w.entry ∧ e.2.nonce = w.nonce := by
  unfold prepareSender at h
  split_ifs at h
  · cases hsign : signVariant cfg w sc (nextTip rotators sc.id).2 now with
    | none => exact Or.inl (by simpa [hsign] using h)
    | some r =>
      cases r with
      | error e => exact Or.inl (by simpa [hsign] using h)
      | ok pre =>
        simp only [hsign, TxPool.insert] at h
        rcases List.mem_cons.mp h with rfl | hold
        · exact Or.inr ⟨rfl, nonce_signVariant hsign⟩
        · exact Or.inl (List.Sublist.mem hold (List.kerase_sublist _ _))
  · exact Or.inl h

end Preparer
end SolanaBench.FanOut
