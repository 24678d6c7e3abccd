import Mathlib.Data.List.Infix
import SolanaBench.Lib.EventMachine
import SolanaBench.TxCutoff.AbortLoop
import SolanaBench.TxCutoff.Report
import SolanaBench.TxCutoff.Schedule

/-! The engine of the transaction cutoff bench: on a header it resolves what the block contains
and sends the next batch, on a send result it writes the first record of the transaction. -/
namespace SolanaBench.TxCutoff

/-- The node's own hash is not read. -/
inductive SendOutcome
  | accepted
  | rejected (code : ℤ) (message : String)
  deriving DecidableEq, Repr

def SendOutcome.isAccepted : SendOutcome → Bool
  | .accepted => true
  | .rejected _ _ => false

/-- The needles are ASCII, and no other letter has one of theirs as its lower case. -/
def classifyError (code : ℤ) (msg : String) : String :=
  let lower := msg.toLower.toList
  if "nonce too low".toList <:+: lower then "nonce_too_low"
  else if "underpriced".toList <:+: lower then "replacement_underpriced"
  else if "timeout".toList <:+: lower then "rpc_timeout"
  else "other_" ++ toString code

def SendOutcome.text : SendOutcome → String
  | .accepted => "ok"
  | .rejected code message => "error:" ++ classifyError code message

structure SendResult where
  walletLabel : String
  txHash : TxHash
  blockIdx : ℕ
  blockNum : ℕ
  blockHash : ℕ
  slotMs : ℕ
  sampleIdx : ℕ
  nonce : ℕ
  targetUnixMs : ℤ
  sentAtUnixMs : ℤ
  wakeJitterUs : ℕ
  rpcRttUs : ℕ
  outcome : SendOutcome
  deriving DecidableEq, Repr

/-- What the first record leaves for the second. -/
structure PartialRecord where
  blockIdx : ℕ
  blockNum : ℕ
  blockHash : ℕ
  slotMs : ℕ
  sampleIdx : ℕ
  wallet : String
  nonce : ℕ
  targetUnixMs : ℤ
  sentAtUnixMs : ℤ
  wakeJitterUs : ℕ
  rpcRttUs : ℕ
  sendResult : String
  txHash : TxHash
  deriving DecidableEq, Repr

def PartialRecord.intoTxRecord (p : PartialRecord) (inclusion : InclusionKind)
    (includedBlock : Option ℕ) : TxRecord where
  blockIdx := p.blockIdx
  blockNum := p.blockNum
  blockHash := p.blockHash
  slotMs := p.slotMs
  sampleIdx := p.sampleIdx
  wallet := p.wallet
  txHash := some p.txHash
  nonce := p.nonce
  targetUnixMs := p.targetUnixMs
  sentAtUnixMs := p.sentAtUnixMs
  wakeJitterUs := p.wakeJitterUs
  rpcRttUs := p.rpcRttUs
  sendResult := p.sendResult
  inclusion := inclusion
  includedBlock := includedBlock

def SendResult.partialRecord (r : SendResult) : PartialRecord where
  blockIdx := r.blockIdx
  blockNum := r.blockNum
  blockHash := r.blockHash
  slotMs := r.slotMs
  sampleIdx := r.sampleIdx
  wallet := r.walletLabel
  nonce := r.nonce
  targetUnixMs := r.targetUnixMs
  sentAtUnixMs := r.sentAtUnixMs
  wakeJitterUs := r.wakeJitterUs
  rpcRttUs := r.rpcRttUs
  sendResult := r.outcome.text
  txHash := r.txHash

/-- `jsonl.write` and `agg.ingest`. -/
inductive Output
  | write (rec : TxRecord)
  | ingest (rec : TxRecord)
  deriving DecidableEq, Repr

/-- A record is written, then counted. -/
def emit (rec : TxRecord) : List Output := [.write rec, .ingest rec]

/-- A transaction that a wallet has signed for the block. -/
structure SignedTx where
  wallet : String
  txHash : TxHash
  nonce : ℕ
  deriving DecidableEq, Repr

/-- A new head, with what the engine learns while it handles it: the transactions of the block
if the fetch succeeds, the clock, and the transactions that the wallets sign. -/
structure Header where
  number : ℕ
  hash : ℕ
  timestamp : ℕ
  fetched : Option (List TxHash)
  receivedUnixMs : ℤ
  signed : List SignedTx
  deriving DecidableEq, Repr

/-- `block_num + 1`, which wraps in `u64`. -/
def Header.targetBlock (h : Header) : ℕ := (h.number + 1) % 2 ^ 64

structure EngineConfig where
  lookahead : ℕ
  threshold : ℕ
  schedule : Schedule
  routerParses : Bool

structure Engine where
  tracker : Tracker
  pendingRecords : AList (fun _ : TxHash => PartialRecord) := ∅
  abort : AbortLoop
  blockIndex : ℕ := 0
  running : Bool := true

namespace Engine

def start (cfg : EngineConfig) : Engine where
  tracker := { lookahead := cfg.lookahead }
  abort := { tracker := { threshold := cfg.threshold } }

/-! ## Headers -/

def inclusionOf : InclusionStatus → Option InclusionKind
  | .includedTarget => some .target
  | .includedLate off => some (.late off)
  | .dropped => some .dropped
  | .pending _ => none
  | .sendError _ => none

/-- The second record of a resolved transaction, if its first one was written. -/
def resolveOne (pending : AList fun _ : TxHash => PartialRecord) (r : ResolvedTx) :
    (AList fun _ : TxHash => PartialRecord) × List Output :=
  match pending.lookup r.txHash with
  | none => (pending.erase r.txHash, [])
  | some part =>
    match inclusionOf r.status with
    | some inclusion => (pending.erase r.txHash, emit (part.intoTxRecord inclusion r.includedBlock))
    | none => (pending.erase r.txHash, [])

def resolving : EventMachine (AList fun _ : TxHash => PartialRecord) ResolvedTx Output where
  step := resolveOne

/-- A failed fetch counts as a block without transactions. -/
def resolve (s : Engine) (h : Header) : Engine × List Output :=
  let drained := (s.tracker.observeBlock h.number (h.fetched.getD [])).drainResolved
  let emitted := resolving.run s.pendingRecords drained.1
  ({ s with tracker := drained.2, pendingRecords := emitted.1 }, emitted.2)

/-- In `i64`, where casts, products and sums wrap. -/
def targetUnixMs (h : Header) (slotMs : ℕ) : ℤ :=
  (Int64.ofNat h.timestamp * 1000 + Int64.ofNat slotMs).toInt

/-- The batch is registered with the tracker and the abort counters. -/
def register (s : Engine) (h : Header) : Engine :=
  { s with
    tracker := h.signed.foldl (fun t tx => t.recordSent tx.txHash h.targetBlock) s.tracker
    abort := s.abort.register s.blockIndex h.signed.length
    blockIndex := s.blockIndex + 1 }

/-- The block is sampled: the plan is not complete, the target is not missed, the router
address parses. -/
def samples (cfg : EngineConfig) (s : Engine) (h : Header) : Bool :=
  cfg.routerParses && (cfg.schedule.slotMsFor s.blockIndex).any fun slotMs =>
    decide (targetUnixMs h slotMs > h.receivedUnixMs)

/-- What comes after the resolutions of the block. -/
def sample (cfg : EngineConfig) (s : Engine) (h : Header) : Engine :=
  match cfg.schedule.slotMsFor s.blockIndex with
  | none => { s with running := false }
  | some slotMs =>
    if targetUnixMs h slotMs ≤ h.receivedUnixMs then { s with blockIndex := s.blockIndex + 1 }
    else if !cfg.routerParses then { s with running := false }
    else s.register h

def onHeader (cfg : EngineConfig) (s : Engine) (h : Header) : Engine × List Output :=
  let r := s.resolve h
  (r.1.sample cfg h, r.2)

/-! ## Send results -/

def onResult (s : Engine) (r : SendResult) : Engine × List Output :=
  let counted := s.abort.count r.blockIdx r.outcome.isAccepted
  let s := { s with abort := counted.1, running := !counted.2 }
  if r.outcome.isAccepted then
    ({ s with pendingRecords := s.pendingRecords.insert r.txHash r.partialRecord },
      emit (r.partialRecord.intoTxRecord .pending none))
  else
    ({ s with tracker := s.tracker.recordSendError r.txHash r.outcome.text },
      emit (r.partialRecord.intoTxRecord .sendError none))

/-- After the main loop results are only written and counted. -/
def drain (r : SendResult) : List Output :=
  emit (r.partialRecord.intoTxRecord (if r.outcome.isAccepted then .pending else .sendError) none)

end Engine

inductive Input
  | header (h : Header)
  | sendResult (r : SendResult)
  | ctrlC
  deriving DecidableEq, Repr

def engine (cfg : EngineConfig) : EventMachine Engine Input Output where
  step s
    | .header h => if s.running then s.onHeader cfg h else (s, [])
    | .sendResult r => if s.running then s.onResult r else (s, Engine.drain r)
    | .ctrlC => ({ s with running := false }, [])

def run (cfg : EngineConfig) (is : List Input) : Engine × List Output :=
  (engine cfg).run (Engine.start cfg) is

/-- The aggregator after some outputs. -/
def aggregate (os : List Output) : SlotAggregator :=
  os.foldl (fun agg o =>
    match o with
    | .ingest rec => agg.ingest rec
    | .write _ => agg) ∅

end SolanaBench.TxCutoff
