import Mathlib.Algebra.Order.Group.Nat
import SolanaBench.TxCutoff.Engine

/-! The wallets of the transaction cutoff bench and the batch that they sign for a sampled
block. A wallet keeps the next nonce and the direction of the next swap, and both move on while
the batch is prepared, before the send is known to succeed. -/
namespace SolanaBench.TxCutoff

inductive SwapDirection
  | aToB
  | bToA
  deriving DecidableEq, Repr

def SwapDirection.other : SwapDirection → SwapDirection
  | .aToB => .bToA
  | .bToA => .aToB

/-- The direction after `k` turns. -/
def SwapDirection.after (d : SwapDirection) : ℕ → SwapDirection
  | 0 => d
  | k + 1 => (d.after k).other

theorem SwapDirection.after_eq (d : SwapDirection) (k : ℕ) :
    d.after k = if k % 2 = 0 then d else d.other := by
  induction k with
  | zero => rfl
  | succ k ih =>
    rw [SwapDirection.after, ih]
    rcases Nat.mod_two_eq_zero_or_one k with hk | hk
    · have hnext : (k + 1) % 2 = 1 := by omega
      simp [hk, hnext]
    · have hnext : (k + 1) % 2 = 0 := by omega
      simp only [hk, hnext]
      cases d <;> rfl

theorem SwapDirection.after_ne_iff (d : SwapDirection) (j k : ℕ) :
    d.after j ≠ d.after k ↔ (j + k) % 2 = 1 := by
  have hne : d ≠ d.other ∧ d.other ≠ d := by cases d <;> exact ⟨nofun, nofun⟩
  rw [after_eq, after_eq]
  rcases Nat.mod_two_eq_zero_or_one j with hj | hj <;>
    rcases Nat.mod_two_eq_zero_or_one k with hk | hk <;> simp [hj, hk, hne, Nat.add_mod]

/-- The byte holds 0 or 1. -/
structure PingPongState where
  state : Fin 2

namespace PingPongState

/-- The side that has enough of its token for one swap, A before B. -/
def initializeWithAmounts (balanceA amountInA balanceB amountInB : ℕ) : Option PingPongState :=
  if balanceA ≥ amountInA then some ⟨0⟩
  else if balanceB ≥ amountInB then some ⟨1⟩
  else none

def currentDirection (p : PingPongState) : SwapDirection :=
  if p.state = 0 then .aToB else .bToA

def advance (p : PingPongState) : PingPongState := ⟨1 - p.state⟩

@[simp] theorem currentDirection_advance (p : PingPongState) :
    p.advance.currentDirection = p.currentDirection.other := by
  obtain ⟨state⟩ := p
  revert state
  decide

end PingPongState

/-- The key is left out; the nonce is the atomic counter. -/
structure Wallet where
  label : String
  nonce : UInt64

namespace Wallet

/-- `fetch_add` wraps. -/
def consumeNonce (w : Wallet) : UInt64 × Wallet := (w.nonce, { w with nonce := w.nonce + 1 })

@[simp] theorem consumeNonce_fst (w : Wallet) : w.consumeNonce.1 = w.nonce := rfl

@[simp] theorem consumeNonce_nonce (w : Wallet) : w.consumeNonce.2.nonce = w.nonce + 1 := rfl

end Wallet

/-- How the fallible steps end for one wallet and one block: whether `encode` returns call data,
and the hash if `sign_eip1559` returns a transaction. -/
structure Attempt where
  encodes : Bool
  signs : Option TxHash

structure ScheduledSend where
  walletLabel : String
  txHash : TxHash
  nonce : UInt64
  direction : SwapDirection
  deriving DecidableEq, Repr

def ScheduledSend.signedTx (s : ScheduledSend) : SignedTx where
  wallet := s.walletLabel
  txHash := s.txHash
  nonce := s.nonce.toNat

/-- A wallet with its ping-pong state. -/
abbrev Trader := Wallet × PingPongState

/-- How the batch loop leaves a wallet. -/
inductive Prepared
  | encodeFailed
  | signFailed
  | scheduled (s : ScheduledSend)
  deriving DecidableEq, Repr

def Prepared.send? : Prepared → Option ScheduledSend
  | .encodeFailed => none
  | .signFailed => none
  | .scheduled s => some s

/-- One round of the batch loop. The direction and the nonce are taken before the signature. -/
def Trader.prepare (w : Trader) (a : Attempt) : Trader × Prepared :=
  if !a.encodes then (w, .encodeFailed)
  else
    let direction := w.2.currentDirection
    let state := w.2.advance
    let (nonce, wallet) := w.1.consumeNonce
    match a.signs with
    | none => ((wallet, state), .signFailed)
    | some txHash => ((wallet, state), .scheduled ⟨wallet.label, txHash, nonce, direction⟩)

/-- What a round does: call data that cannot be encoded leave the wallet alone, else the wallet
moves on, signed or not. -/
theorem Trader.prepare_cases (w : Trader) (a : Attempt) :
    w.prepare a = (w, .encodeFailed) ∨
      (w.prepare a).1 = (w.1.consumeNonce.2, w.2.advance) ∧
        ((w.prepare a).2 = .signFailed ∨ ∃ txHash, (w.prepare a).2 =
          .scheduled ⟨w.1.label, txHash, w.1.nonce, w.2.currentDirection⟩) := by
  unfold prepare
  cases a.encodes with
  | false => exact Or.inl rfl
  | true =>
    refine Or.inr ?_
    cases a.signs with
    | none => exact ⟨rfl, Or.inl rfl⟩
    | some txHash => exact ⟨rfl, Or.inr ⟨txHash, rfl⟩⟩

/-! ## The engine with its wallets -/

structure Bench where
  engine : Engine
  wallets : List Trader

/-- A new head comes with what the fallible steps of each wallet will do, a send result with the
wallet whose task reports it. -/
inductive BenchInput
  | header (h : Header) (attempts : ℕ → Attempt)
  | sendResult (wallet : ℕ) (r : SendResult)
  | ctrlC

namespace Bench

def start (cfg : EngineConfig) (wallets : List Trader) : Bench where
  engine := Engine.start cfg
  wallets := wallets

/-- The batch loop. -/
def prepare (s : Bench) (attempts : ℕ → Attempt) : List (Trader × Prepared) :=
  s.wallets.mapIdx fun i w => w.prepare (attempts i)

/-- The head with the transactions that the wallets sign for it. -/
def signedHeader (s : Bench) (h : Header) (attempts : ℕ → Attempt) : Header :=
  { h with signed := (s.prepare attempts).filterMap fun p => p.2.send?.map ScheduledSend.signedTx }

/-- The head is handled and its block sampled. -/
def prepares (cfg : EngineConfig) (s : Bench) (h : Header) : Bool :=
  s.engine.running && s.engine.samples cfg h

end Bench

def bench (cfg : EngineConfig) : EventMachine Bench BenchInput Output where
  step s
    | .header h attempts =>
      let r := (engine cfg).step s.engine (.header (s.signedHeader h attempts))
      let wallets :=
        if s.prepares cfg h then (s.prepare attempts).map Prod.fst else s.wallets
      (⟨r.1, wallets⟩, r.2)
    | .sendResult _ r =>
      let r := (engine cfg).step s.engine (.sendResult r)
      ({ s with engine := r.1 }, r.2)
    | .ctrlC =>
      let r := (engine cfg).step s.engine .ctrlC
      ({ s with engine := r.1 }, r.2)

/-- What the engine is told. -/
def BenchInput.toInput (s : Bench) : BenchInput → Input
  | .header h attempts => .header (s.signedHeader h attempts)
  | .sendResult _ r => .sendResult r
  | .ctrlC => .ctrlC

section

variable {cfg : EngineConfig} {s : Bench} {i : ℕ} {w : Trader}

theorem step_engine (cfg : EngineConfig) (s : Bench) (input : BenchInput) :
    ((bench cfg).step s input).1.engine = ((engine cfg).step s.engine (input.toInput s)).1 ∧
      ((bench cfg).step s input).2 = ((engine cfg).step s.engine (input.toInput s)).2 := by
  cases input <;> exact ⟨rfl, rfl⟩

/-- The engine runs as it does on heads that come with the transactions the wallets sign. -/
theorem run_engine (cfg : EngineConfig) (s : Bench) (is : List BenchInput) :
    let inputs := (bench cfg).readings (fun t input => [input.toInput t]) s is
    ((bench cfg).run s is).1.engine = ((engine cfg).run s.engine inputs).1 ∧
      ((bench cfg).run s is).2 = ((engine cfg).run s.engine inputs).2 := by
  induction is generalizing s with
  | nil => exact ⟨rfl, rfl⟩
  | cons input is ih =>
    obtain ⟨hstate, hout⟩ := step_engine cfg s input
    obtain ⟨hrest, houts⟩ := ih ((bench cfg).step s input).1
    rw [hstate] at hrest houts
    refine ⟨hrest, ?_⟩
    rw [EventMachine.run_cons_snd, houts, hout]
    rfl

/-- A sampled head takes each wallet through one round of the loop. -/
theorem step_header_wallet {h : Header} (attempts : ℕ → Attempt) (hw : s.wallets[i]? = some w) :
    ((bench cfg).step s (.header h attempts)).1.wallets[i]? =
      some (if s.prepares cfg h then (w.prepare (attempts i)).1 else w) := by
  unfold bench Bench.prepare
  dsimp only
  split
  · simp [hw]
  · exact hw

end

end SolanaBench.TxCutoff
