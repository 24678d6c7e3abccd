import SolanaBench.Lib.BatchNumbers
import SolanaBench.TickTrigger.TipAccounts
import SolanaBench.TickTriggerBench.Observer

/-! The preparer of the tick trigger bench: cycle after cycle it signs a transaction for each
scheduled tick in the window ahead and puts it in the pool. Signing and the wire format belong
to other packages and are parameters. -/
namespace SolanaBench.TickTriggerBench

/-! ## Transactions -/

namespace Wallet

/-- `HELIUS_TIP_ACCOUNTS[0]`, the one that gets every tip. -/
def heliusTipAccount : Pubkey :=
  Pubkey.fromStr "3KCKozbAaF75qEU33jtzozcJ29yJuaLJTy2jFdzUY8bT"

inductive Instruction
  | setComputeUnitPrice (microLamports : ℕ)
  | setComputeUnitLimit (units : ℕ)
  | transfer (source target : Pubkey) (lamports : ℕ)
  deriving DecidableEq, Repr

structure Message where
  payer : Pubkey
  instructions : List Instruction
  recentBlockhash : Hash
  deriving DecidableEq, Repr

structure Transaction where
  signatures : List Signature
  message : Message
  deriving DecidableEq, Repr

/-- What `build_self_transfer` signs. -/
def selfTransferMessage (payer : Pubkey) (amountLamports priorityFeeMicrolamports
    heliusTipLamports : ℕ) (blockhash : Hash) : Message where
  payer := payer
  recentBlockhash := blockhash
  instructions :=
    (if priorityFeeMicrolamports > 0 then [.setComputeUnitPrice priorityFeeMicrolamports]
      else []) ++
    [.setComputeUnitLimit 2000] ++
    (if heliusTipLamports > 0 then [.transfer payer heliusTipAccount heliusTipLamports] else []) ++
    [.transfer payer payer amountLamports]

def buildSelfTransfer (sign : Message → Signature) (payer : Pubkey) (amountLamports
    priorityFeeMicrolamports heliusTipLamports : ℕ) (blockhash : Hash) : Transaction :=
  let message := selfTransferMessage payer amountLamports priorityFeeMicrolamports
    heliusTipLamports blockhash
  ⟨[sign message], message⟩

/-- `tx.signatures[0]`. -/
def primarySignature (tx : Transaction) : Signature := tx.signatures.headD 0

/-- Within one bench a message is its amount and its blockhash. -/
theorem selfTransferMessage_inj {payer : Pubkey} {amount amount' fee tip : ℕ}
    {blockhash blockhash' : Hash} :
    selfTransferMessage payer amount fee tip blockhash =
        selfTransferMessage payer amount' fee tip blockhash' ↔
      amount = amount' ∧ blockhash = blockhash' := by
  simp [selfTransferMessage]

end Wallet

open Wallet (Message Transaction)

/-! ## The cycles -/

structure ScheduleEntry where
  slot : ℕ
  tick : ℕ
  deriving DecidableEq, Repr

/-- `(entry.slot, entry.tick)`. -/
def ScheduleEntry.key (e : ScheduleEntry) : ℕ × ℕ := (e.slot, e.tick)

theorem ScheduleEntry.key_injective : Function.Injective ScheduleEntry.key := by
  rintro ⟨slot, tick⟩ ⟨slot', tick'⟩ h
  obtain ⟨rfl, rfl⟩ := Prod.mk.inj h
  rfl

structure PreparerConfig where
  schedule : List ScheduleEntry
  keypair : Pubkey
  lookAheadSlots : ℕ := 100
  amountLamports : ℕ := 1
  priorityFeeMicrolamports : ℕ := 5000
  heliusTipLamports : ℕ := 5000
  sign : Message → Signature
  serialize : Transaction → List UInt8

namespace Preparer

def BLOCKHASH_MAX_AGE : Duration := 50_000_000_000

/-- The map of the loop, and the pool that the observer takes from. -/
structure State where
  alreadySigned : AList (fun _ : ℕ × ℕ => Instant) := ∅
  pool : AList (fun _ : ℕ × ℕ => PreSignedTx) := ∅

/-- A transaction that was signed, with its entry and its amount. -/
structure Signed where
  entry : ScheduleEntry
  amount : ℕ
  tx : PreSignedTx
  deriving DecidableEq, Repr

def isExpired (now builtAt : Instant) : Bool :=
  decide (Instant.saturatingDurationSince now builtAt ≥ BLOCKHASH_MAX_AGE)

/-- The expired keys leave both maps. -/
def State.expire (s : State) (now : Instant) : State where
  alreadySigned := s.alreadySigned.retain fun _ builtAt => !isExpired now builtAt
  pool := s.pool.retain fun key _ => !(s.alreadySigned.lookup key).any (isExpired now)

def inWindow (cfg : PreparerConfig) (nowSlot : ℕ) (entry : ScheduleEntry) : Bool :=
  decide (nowSlot ≤ entry.slot ∧ entry.slot < (nowSlot + cfg.lookAheadSlots) % 2 ^ 64)

/-- In the window and not signed yet. -/
def isDue (cfg : PreparerConfig) (nowSlot : ℕ) (s : State) (entry : ScheduleEntry) : Bool :=
  inWindow cfg nowSlot entry && (s.alreadySigned.lookup entry.key).isNone

def preSign (cfg : PreparerConfig) (amount : ℕ) (blockhash : Hash) (builtAt : Instant) :
    PreSignedTx :=
  let tx := Wallet.buildSelfTransfer cfg.sign cfg.keypair amount cfg.priorityFeeMicrolamports
    cfg.heliusTipLamports blockhash
  ⟨cfg.serialize tx, Wallet.primarySignature tx, blockhash, builtAt⟩

/-- The transaction goes into the pool, and its key counts as signed. -/
def State.add (s : State) (key : ℕ × ℕ) (tx : PreSignedTx) : State where
  alreadySigned := s.alreadySigned.insert key tx.builtAt
  pool := s.pool.insert key tx

/-- The loop over the schedule. It carries `new_signed`; `clock` answers its `Instant::now()`. -/
def signer (cfg : PreparerConfig) (blockhash : Hash) (nowSlot : ℕ) (clock : ℕ → Instant) :
    EventMachine (State × ℕ) ScheduleEntry Signed where
  step w entry :=
    if isDue cfg nowSlot w.1 entry then
      let amount := satAddU64 cfg.amountLamports w.2
      let tx := preSign cfg amount blockhash (clock w.2)
      ((w.1.add entry.key tx, w.2 + 1), [⟨entry, amount, tx⟩])
    else (w, [])

/-- `prune_older_than`. -/
def State.pruneOlderThan (s : State) (cutoffSlot : ℕ) : State :=
  { s with pool := s.pool.retain fun key _ => decide (cutoffSlot ≤ key.1) }

/-- `none` where the blockhash could not be fetched. -/
def runCycle (cfg : PreparerConfig) (s : State) (blockhash : Option Hash) (now : Instant)
    (nowSlot : ℕ) (clock : ℕ → Instant) : State × List Signed :=
  match blockhash with
  | none => (s, [])
  | some blockhash =>
    let s := s.expire now
    if nowSlot = 0 then (s, [])
    else
      let r := (signer cfg blockhash nowSlot clock).run (s, 0) cfg.schedule
      (r.1.1.pruneOlderThan (nowSlot - 2), r.2)

/-- A cycle, or the observer at the pool. -/
inductive Input
  | cycle (blockhash : Option Hash) (now : Instant) (nowSlot : ℕ) (clock : ℕ → Instant)
  | take (key : ℕ × ℕ)

def machine (cfg : PreparerConfig) : EventMachine State Input Signed where
  step s
    | .cycle blockhash now nowSlot clock => runCycle cfg s blockhash now nowSlot clock
    | .take key => ({ s with pool := s.pool.erase key }, [])

/-- The blockhash of a cycle with the entries that are due in it. -/
def batch (cfg : PreparerConfig) (s : State) : Input → List (Hash × List ScheduleEntry)
  | .cycle (some blockhash) now nowSlot _ =>
    if nowSlot = 0 then []
    else [(blockhash, cfg.schedule.filter (isDue cfg nowSlot (s.expire now)))]
  | _ => []

/-! ## What one cycle signs -/

section

variable {cfg : PreparerConfig}

/-- Signing an entry leaves the others due. -/
theorem isDue_add {nowSlot : ℕ} {s : State} {entry other : ScheduleEntry} (h : other ≠ entry)
    (tx : PreSignedTx) : isDue cfg nowSlot (s.add entry.key tx) other = isDue cfg nowSlot s other := by
  have hkey : other.key ≠ entry.key := ScheduleEntry.key_injective.ne h
  unfold isDue State.add
  rw [AList.lookup_insert_ne hkey]

/-- What tells a signed transaction apart. -/
def Signed.view (x : Signed) : ScheduleEntry × ℕ × Hash := (x.entry, x.amount, x.tx.blockhash)

/-- The same from the number of the transaction in its cycle. -/
def numberView (cfg : PreparerConfig) (x : ScheduleEntry × ℕ × Hash) : ScheduleEntry × ℕ × Hash :=
  (x.1, satAddU64 cfg.amountLamports x.2.1, x.2.2)

/-- The due entries are signed in the order of the schedule and numbered on from `n`. -/
theorem signer_view (blockhash : Hash) (nowSlot : ℕ) (clock : ℕ → Instant)
    {entries : List ScheduleEntry} (hnodup : entries.Nodup) (s : State) (n : ℕ) :
    ((signer cfg blockhash nowSlot clock).run (s, n) entries).2.map Signed.view =
      ((entries.filter (isDue cfg nowSlot s)).zipIdx n).map fun e =>
        numberView cfg (e.1, e.2, blockhash) := by
  induction entries generalizing s n with
  | nil => rfl
  | cons entry entries ih =>
    obtain ⟨hnew, hnodup⟩ := List.nodup_cons.mp hnodup
    rw [EventMachine.run_cons_snd, List.map_append]
    by_cases hdue : isDue cfg nowSlot s entry
    · have hfilter : ∀ tx, entries.filter (isDue cfg nowSlot (s.add entry.key tx)) =
          entries.filter (isDue cfg nowSlot s) := fun tx =>
        List.filter_congr fun e he => isDue_add (by rintro rfl; exact hnew he) tx
      have hrest := ih hnodup
        (s.add entry.key (preSign cfg (satAddU64 cfg.amountLamports n) blockhash (clock n))) (n + 1)
      rw [hfilter] at hrest
      simp only [signer, hdue, if_true]
      rw [List.filter_cons_of_pos hdue, List.zipIdx_cons, List.map_cons]
      exact congrArg (_ :: ·) hrest
    · have hstep : (signer cfg blockhash nowSlot clock).step (s, n) entry = ((s, n), []) := by
        simp [signer, hdue]
      rw [hstep, List.filter_cons_of_neg hdue]
      exact ih hnodup s n

theorem step_view (hnodup : cfg.schedule.Nodup) (s : State) (i : Input) :
    ((machine cfg).step s i).2.map Signed.view =
      (BatchNumbers.numbered (batch cfg s i)).map (numberView cfg) := by
  cases i with
  | take key => rfl
  | cycle blockhash now nowSlot clock =>
    cases blockhash with
    | none => rfl
    | some blockhash =>
      simp only [machine, runCycle, batch]
      split
      · rfl
      · rw [BatchNumbers.numbered_singleton, List.map_map]
        exact signer_view blockhash nowSlot clock hnodup _ 0

theorem run_view (hnodup : cfg.schedule.Nodup) (s : State) (is : List Input) :
    ((machine cfg).run s is).2.map Signed.view =
      (BatchNumbers.numbered ((machine cfg).readings (batch cfg) s is)).map (numberView cfg) := by
  induction is generalizing s with
  | nil => rfl
  | cons i is ih =>
    rw [EventMachine.run_cons_snd, List.map_append, step_view hnodup, ih]
    simp [EventMachine.readings]

end

end Preparer
end SolanaBench.TickTriggerBench
