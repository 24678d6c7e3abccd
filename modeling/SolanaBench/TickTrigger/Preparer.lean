import Mathlib.Data.List.AList
import SolanaBench.Nonce.Manager
import SolanaBench.TickTrigger.TriggerEngine

/-! The preparer's work on one schedule entry: one signed variant per enabled sender,
shuffled and put in the pool under `(slot, tick)`. Signing and shuffling belong to
other packages and are parameters. -/
namespace SolanaBench.TickTrigger

open Nonce
open TriggerEngine (TriggerId)

/-! ## Transactions -/

namespace TxBuilder

inductive Instruction
  | advanceNonceAccount (noncePubkey authority : Pubkey)
  | setComputeUnitLimit (units : ℕ)
  | setComputeUnitPrice (microLamports : ℕ)
  | memo (signer : Pubkey) (data : String)
  | transfer (source target : Pubkey) (lamports : ℕ)
  deriving DecidableEq, Repr

structure Transaction where
  payer : Pubkey
  instructions : List Instruction
  recentBlockhash : Hash
  deriving DecidableEq, Repr

/-- The nonce account a nonced transaction advances and the value it must find there. -/
def Transaction.durableNonce (tx : Transaction) : Option (Pubkey × Hash) :=
  match tx.instructions with
  | .advanceNonceAccount noncePubkey _ :: _ => some (noncePubkey, tx.recentBlockhash)
  | _ => none

structure TxConfig where
  selfTransferLamports : ℕ := 1
  priorityFeeMicrolamports : ℕ := 5000
  computeUnitLimit : ℕ := 200_000

structure NonceParams where
  noncePubkey : Pubkey
  authority : Pubkey

structure BuildParams where
  payer : Pubkey
  blockhash : Hash
  senderId : ℕ
  triggerId : TriggerId
  tipAccount : Option Pubkey
  tipLamports : ℕ
  nonce : Option NonceParams
  txCfg : TxConfig
  fundTipper : Option (Pubkey × ℕ)

/-- `{:0width$x}`. -/
def hexPad (width n : ℕ) : List Char :=
  let digits := Nat.toDigits 16 n
  List.replicate (width - digits.length) '0' ++ digits

def memoPayload (senderId : ℕ) (triggerId : TriggerId) : String :=
  String.ofList (hexPad 2 senderId ++ ':' :: hexPad 16 triggerId)

def build (p : BuildParams) : Transaction where
  payer := p.payer
  recentBlockhash := p.blockhash
  instructions :=
    (p.nonce.map fun np => Instruction.advanceNonceAccount np.noncePubkey np.authority).toList ++
    [.setComputeUnitLimit p.txCfg.computeUnitLimit] ++
    (if p.txCfg.priorityFeeMicrolamports > 0 then
      [.setComputeUnitPrice p.txCfg.priorityFeeMicrolamports] else []) ++
    [.memo p.payer (memoPayload p.senderId p.triggerId)] ++
    (match p.tipAccount with
      | some tip => if p.tipLamports > 0 then [.transfer p.payer tip p.tipLamports] else []
      | none => []) ++
    [.transfer p.payer p.payer p.txCfg.selfTransferLamports] ++
    (p.fundTipper.map fun t => Instruction.transfer p.payer t.1 t.2).toList

/-- The nonce instruction comes first, so the transaction is bound to the given pair. -/
theorem durableNonce_build (p : BuildParams) :
    (build p).durableNonce = p.nonce.map fun np => (np.noncePubkey, p.blockhash) := by
  unfold Transaction.durableNonce build
  cases p.nonce <;> rfl

end TxBuilder

open TxBuilder

/-! ## The pool -/

structure BundleMeta where
  tipAccount : Pubkey
  tipLamports : ℕ
  deriving DecidableEq, Repr

structure PreSignedTx where
  senderId : ℕ
  tx : Transaction
  signature : Signature
  blockhash : Hash
  preparedAt : Instant
  nonceId : Option NonceId
  bundleMetadata : Option BundleMeta
  deriving DecidableEq, Repr

structure ScheduleEntry where
  slot : ℕ
  tick : ℕ
  deriving DecidableEq, Repr

/-- The full variant list of every prepared `(slot, tick)`. -/
structure TxPool where
  inner : AList (fun _ : ScheduleEntry => List PreSignedTx) := ∅

namespace TxPool

def take (p : TxPool) (key : ScheduleEntry) : TxPool × Option (List PreSignedTx) :=
  (⟨p.inner.erase key⟩, p.inner.lookup key)

def insertAll (p : TxPool) (key : ScheduleEntry) (txs : List PreSignedTx) : TxPool :=
  ⟨p.inner.insert key txs⟩

def evictBelow (p : TxPool) (cutoffSlot : ℕ) : TxPool :=
  ⟨⟨p.inner.entries.filter fun e => e.1.slot ≥ cutoffSlot,
    p.inner.nodupKeys.sublist List.filter_sublist⟩⟩

end TxPool

/-! ## Preparing -/

inductive SenderKind
  | helius | jito | triton
  deriving DecidableEq, Repr

structure SenderConfig where
  id : ℕ
  kind : SenderKind
  tipLamports : ℕ := 0
  enabled : Bool := true
  deriving DecidableEq, Repr

structure PreparerConfig where
  keypair : Pubkey
  txCfg : TxConfig := {}
  senders : List SenderConfig
  shuffleSeed : ℕ := 0
  sign : Transaction → Signature
  shuffle : ℕ → List PreSignedTx → List PreSignedTx
  shuffle_perm : ∀ seed txs, (shuffle seed txs).Perm txs

/-- What the tip account rotators and the live Jito tip handles answer, by sender id. -/
structure Tips where
  next : ℕ → Option Pubkey
  handle : ℕ → Option ℕ

namespace Preparer

/-- The variant of one sender; a Jito sender without handle or account is skipped. -/
def signVariant (cfg : PreparerConfig) (tips : Tips) (entry : ScheduleEntry) (bh : Hash)
    (nonce : Option (NonceId × Pubkey)) (preparedAt : Instant) (sc : SenderConfig) :
    Option PreSignedTx :=
  let tipAccount := if sc.tipLamports > 0 ∨ sc.kind = .jito then tips.next sc.id else none
  let variant (tipLamports : ℕ) (bundle : Option BundleMeta) : PreSignedTx :=
    let tx := build
      { payer := cfg.keypair
        blockhash := bh
        senderId := sc.id
        triggerId := TriggerId.fromSlotTick entry.slot entry.tick
        tipAccount := tipAccount
        tipLamports := tipLamports
        nonce := nonce.map fun n => ⟨n.2, cfg.keypair⟩
        txCfg := cfg.txCfg
        fundTipper := none }
    ⟨sc.id, tx, cfg.sign tx, bh, preparedAt, nonce.map Prod.fst, bundle⟩
  if sc.kind = .jito then
    match tips.handle sc.id, tipAccount with
    | some lamports, some tip => some (variant lamports (some ⟨tip, lamports⟩))
    | _, _ => none
  else some (variant sc.tipLamports none)

/-- The seed of the per-trigger shuffle. -/
def permSeed (cfg : PreparerConfig) (entry : ScheduleEntry) : ℕ :=
  (cfg.shuffleSeed * 0x9E3779B97F4A7C15 % 2 ^ 64) ^^^ ((entry.slot <<< 8) % 2 ^ 64) ^^^ entry.tick

def variants (cfg : PreparerConfig) (tips : Tips) (entry : ScheduleEntry) (bh : Hash)
    (nonce : Option (NonceId × Pubkey)) (preparedAt : Instant) : List PreSignedTx :=
  cfg.shuffle (permSeed cfg entry)
    ((cfg.senders.filter SenderConfig.enabled).filterMap
      (signVariant cfg tips entry bh nonce preparedAt))

/-- Entries of slots the engine has left behind are dropped before signing. -/
def isPast (entry : ScheduleEntry) (currentSlot : ℕ) : Bool :=
  decide (currentSlot > 0 ∧ (entry.slot + 1) % 2 ^ 64 < currentSlot)

def maybeEvict (pool : TxPool) (currentSlot : ℕ) : TxPool :=
  if currentSlot = 0 then pool else pool.evictBelow (currentSlot - 4)

/-- Every variant advances the nonce it was given, from the value it was given. -/
theorem mem_variants {cfg : PreparerConfig} {tips : Tips} {entry : ScheduleEntry} {bh : Hash}
    {nonce : Option (NonceId × Pubkey)} {preparedAt : Instant} {v : PreSignedTx}
    (h : v ∈ variants cfg tips entry bh nonce preparedAt) :
    v.tx.durableNonce = nonce.map (fun n => (n.2, bh)) ∧ v.nonceId = nonce.map Prod.fst ∧
      v.blockhash = bh := by
  have hmem := (cfg.shuffle_perm _ _).mem_iff.mp h
  obtain ⟨sc, -, hsc⟩ := List.mem_filterMap.mp hmem
  unfold signVariant at hsc
  dsimp only at hsc
  have hvariant : ∀ p, (∀ n, p.nonce = n → n.map NonceParams.noncePubkey = nonce.map Prod.snd) →
      p.blockhash = bh →
      (build p).durableNonce = nonce.map (fun n => (n.2, bh)) := by
    intro p hn hb
    have hpk := hn p.nonce rfl
    rw [durableNonce_build, hb]
    cases hp : p.nonce <;> cases nonce <;> simp_all
  split at hsc
  · split at hsc
    · obtain rfl := Option.some.inj hsc
      exact ⟨hvariant _ (by rintro n rfl; cases nonce <;> rfl) rfl, rfl, rfl⟩
    · cases hsc
  · obtain rfl := Option.some.inj hsc
    exact ⟨hvariant _ (by rintro n rfl; cases nonce <;> rfl) rfl, rfl, rfl⟩

end Preparer
end SolanaBench.TickTrigger
