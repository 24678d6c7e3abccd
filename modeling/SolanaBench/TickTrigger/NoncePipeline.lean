import Mathlib.Logic.Function.Basic
import SolanaBench.Nonce.Allocation
import SolanaBench.TickTrigger.Preparer

/-! Everything that touches a durable nonce between its allocation and its reuse: the
preparer, the dispatcher, the poller and the recorder hook as they interleave, and the
nonce accounts on chain. -/
namespace SolanaBench.TickTrigger.NoncePipeline

open Nonce TxBuilder

/-- A transaction advanced the account from `consumed` to `value`; the match of it
has still to reach the manager. -/
structure Landing where
  nonceId : NonceId
  account : Pubkey
  consumed : Hash
  value : Hash
  deriving DecidableEq, Repr

structure State where
  manager : NonceManager
  /-- The values each nonce account has had, the current one last. -/
  chain : Pubkey → List Hash
  /-- The entry the preparer works on, and the nonce it has taken for it. -/
  pending : Option ScheduleEntry := none
  taken : Option (NonceId × Pubkey × Hash) := none
  pool : TxPool := {}
  /-- The sends without an outcome yet. -/
  unresolved : List (ScheduleEntry × PreSignedTx) := []
  sent : List PreSignedTx := []
  landings : List Landing := []

/-- The account's current value, as the RPC answers. -/
def State.onChain (st : State) (account : Pubkey) : Option Hash := (st.chain account).getLast?

/-- The moves of the threads, each an atomic access to something shared. -/
inductive Input
  /-- Preparer: next schedule entry, one iteration of `take_ready`, signing with the
  pool insert, eviction. -/
  | receive (entry : ScheduleEntry) (currentSlot : ℕ)
  | probe (idx : ℕ) (now : Instant)
  | insert (tips : Tips) (preparedAt : Instant)
  | evict (currentSlot : ℕ)
  /-- Dispatcher: take a trigger's variants from the pool and send them. -/
  | dispatch (key : ScheduleEntry)
  /-- The recorder closes an attempt. -/
  | resolve (key : ScheduleEntry) (senderId : ℕ)
  /-- Poller: one entry of `tick_timeouts`, one account of `refresh_batch`. -/
  | timeout (idx : ℕ) (inFlightDeadline awaitingUpdateDeadline : Duration) (now : Instant)
  | refresh (account : Pubkey)
  /-- Chain: the `n`-th sent transaction lands and leaves a new value. -/
  | land (n : ℕ) (value : Hash)
  /-- Recorder hook for the `n`-th pending match, with or without the next value. -/
  | matched (n : ℕ)
  | matchedMiss (n : ℕ) (now : Instant)

def State.manage (st : State) (a : NonceManager.Action) : State :=
  { st with manager := (st.manager.step a).1 }

def receive (st : State) (entry : ScheduleEntry) (currentSlot : ℕ) : State :=
  if st.pending = none ∧ Preparer.isPast entry currentSlot = false then
    { st with pending := some entry }
  else st

def probe (st : State) (idx : ℕ) (now : Instant) : State :=
  if st.pending ≠ none ∧ st.taken = none then
    { st.manage (.probe idx now) with taken := (st.manager.step (.probe idx now)).2.head? }
  else st

def insert (cfg : PreparerConfig) (st : State) (tips : Tips) (preparedAt : Instant) : State :=
  match st.pending, st.taken with
  | some entry, some (id, pubkey, bh) =>
    { st with
      pending := none
      taken := none
      pool := st.pool.insertAll entry
        (Preparer.variants cfg tips entry bh (some (id, pubkey)) preparedAt) }
  | _, _ => st

/-- Variants of senders the dispatcher does not know are dropped. A pool miss is skipped
in nonce mode. -/
def dispatch (cfg : PreparerConfig) (st : State) (key : ScheduleEntry) : State :=
  match st.pool.take key with
  | (pool, some txs) =>
    let known := txs.filter fun v => cfg.senders.any fun sc => sc.id = v.senderId
    { st with
      pool := pool
      unresolved := st.unresolved ++ known.map fun v => (key, v)
      sent := st.sent ++ known }
  | (pool, none) => { st with pool := pool }

def resolve (st : State) (key : ScheduleEntry) (senderId : ℕ) : State :=
  { st with
    unresolved := st.unresolved.filter fun a => ¬(a.1 = key ∧ a.2.senderId = senderId) }

def refresh (st : State) (account : Pubkey) : State :=
  match st.onChain account with
  | some value => st.manage (.fallbackRefresh account value)
  | none => st

/-- A nonced transaction lands only while the account holds the value it was signed
with, and no account gets the same value twice. -/
def land (st : State) (n : ℕ) (value : Hash) : State :=
  match st.sent[n]? with
  | none => st
  | some v =>
    match v.tx.durableNonce, v.nonceId with
    | some (account, bh), some nonceId =>
      if st.onChain account = some bh ∧ value ∉ st.chain account then
        { st with
          chain := Function.update st.chain account (st.chain account ++ [value])
          landings := st.landings ++ [⟨nonceId, account, bh, value⟩] }
      else st
    | _, _ => st

def matched (st : State) (n : ℕ) : State :=
  match st.landings[n]? with
  | none => st
  | some l =>
    { st.manage (.landingWithBlockhash l.nonceId l.value) with landings := st.landings.eraseIdx n }

def matchedMiss (st : State) (n : ℕ) (now : Instant) : State :=
  match st.landings[n]? with
  | none => st
  | some l =>
    { st.manage (.observedLanding l.nonceId now) with landings := st.landings.eraseIdx n }

def next (cfg : PreparerConfig) (st : State) : Input → State
  | .receive entry currentSlot => receive st entry currentSlot
  | .probe idx now => probe st idx now
  | .insert tips preparedAt => insert cfg st tips preparedAt
  | .evict currentSlot => { st with pool := Preparer.maybeEvict st.pool currentSlot }
  | .dispatch key => dispatch cfg st key
  | .resolve key senderId => resolve st key senderId
  | .timeout idx d d' now => st.manage (.timeout idx d d' now)
  | .refresh account => refresh st account
  | .land n value => land st n value
  | .matched n => matched st n
  | .matchedMiss n now => matchedMiss st n now

def machine (cfg : PreparerConfig) : EventMachine State Input Empty where
  step st i := (next cfg st i, [])

/-- All nonces are ready with the values the accounts have. -/
def initial (entries : List (NonceId × Pubkey × Hash)) : State where
  manager := NonceManager.new entries
  chain account := ((entries.find? fun e => e.2.1 = account).map fun e => e.2.2).toList

/-- The nonce account, with its value, that each transaction of a trigger is bound to. -/
abbrev Binding := ScheduleEntry × Pubkey × Hash

def bindingOf (key : ScheduleEntry) (v : PreSignedTx) : Option Binding :=
  v.tx.durableNonce.map fun n => (key, n)

/-- The bindings of the triggers being prepared, in the pool, or sent without outcome. -/
def State.bindings (st : State) : List Binding :=
  (match st.pending, st.taken with
    | some entry, some (_, nonce) => [(entry, nonce)]
    | _, _ => []) ++
  (st.pool.inner.entries.flatMap fun e => e.2.filterMap (bindingOf e.1)) ++
  st.unresolved.filterMap fun a => bindingOf a.1 a.2

/-- No two triggers are bound to the same nonce account at the same value. -/
def State.Exclusive (st : State) : Prop :=
  ∀ b ∈ st.bindings, ∀ b' ∈ st.bindings, b.2 = b'.2 → b.1 = b'.1

instance (st : State) : Decidable st.Exclusive :=
  inferInstanceAs (Decidable (∀ b ∈ st.bindings, ∀ b' ∈ st.bindings, b.2 = b'.2 → b.1 = b'.1))

end SolanaBench.TickTrigger.NoncePipeline
