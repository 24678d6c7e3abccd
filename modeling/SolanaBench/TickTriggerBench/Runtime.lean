import SolanaBench.Lib.BatchWriter
import SolanaBench.Lib.BoundedChannel
import SolanaBench.TickTriggerBench.Deltas
import SolanaBench.TickTriggerBench.Preparer
import SolanaBench.TickTriggerBench.RpcFallback

/-! The threads of a bench run side by side: the preparer fills the pool, the observer takes a
transaction out of it at its tick, the dispatcher sends it, the finalizer joins it with a match,
and the Parquet writer has the record. The channels between them are bounded, and nobody waits
for room in one. -/
namespace SolanaBench.TickTriggerBench

/-! ## The preparer, one access to the shared maps after the other -/

namespace Preparer

/-- What a cycle has read, and its `new_signed`. -/
structure Cycle where
  blockhash : Hash
  nowSlot : ℕ
  newSigned : ℕ := 0

/-- A key that is among the expired ones. -/
def State.expireKey (s : State) (key : ℕ × ℕ) (now : Instant) : State :=
  if (s.alreadySigned.lookup key).any (isExpired now) then
    ⟨s.alreadySigned.erase key, s.pool.erase key⟩
  else s

/-- One round of the loop over the schedule. -/
def signEntry (cfg : PreparerConfig) (s : State) (c : Cycle) (entry : ScheduleEntry)
    (builtAt : Instant) : State × Cycle × List Signed :=
  if c.nowSlot ≠ 0 ∧ isDue cfg c.nowSlot s entry then
    let amount := satAddU64 cfg.amountLamports c.newSigned
    let tx := preSign cfg amount c.blockhash builtAt
    (s.add entry.key tx, { c with newSigned := c.newSigned + 1 }, [⟨entry, amount, tx⟩])
  else (s, c, [])

/-- One removal of `prune_older_than`. -/
def State.pruneKey (s : State) (c : Cycle) (key : ℕ × ℕ) : State :=
  if c.nowSlot ≠ 0 ∧ key.1 < c.nowSlot - 2 then { s with pool := s.pool.erase key } else s

end Preparer

/-! ## The dispatcher -/

inductive SendError
  | httpStatus (code : ℕ) (body : String)
  | rpcError (msg : String)
  | network (e : String)
  | parse (msg : String)
  deriving DecidableEq, Repr

/-- The text in the send event. -/
def SendError.text : SendError → String
  | .httpStatus code body => "http " ++ toString code ++ ": " ++ body
  | .network e => "net: " ++ e
  | .rpcError msg => "rpc: " ++ msg
  | .parse msg => "parse: " ++ msg

/-- A command in `process_one` while its request is out. -/
structure Flight where
  cmd : SendCommand
  sendAt : Instant
  deriving DecidableEq, Repr

/-- The end of `process_one`. -/
def Flight.sendEvent (f : Flight) (responseAt : Instant) (error : Option SendError) :
    SendEvent where
  signature := f.cmd.tx.signature
  scheduleSlot := f.cmd.scheduleSlot
  scheduleTick := f.cmd.scheduleTick
  triggerObservedAt := f.cmd.triggerObservedAt
  sendAt := f.sendAt
  responseAt := responseAt
  error := error.map SendError.text

/-! ## The Parquet writer -/

structure ParquetWriterConfig where
  rowGroupSize : ℕ
  flushInterval : Duration
  leaderCache : LeaderCache
  anchor : Instant

/-- `parquet_loop` up to the end of the channel. The builders of a batch are filled with its
records. -/
def parquetWriter (cfg : ParquetWriterConfig) :
    EventMachine (BatchWriter.State FinalRecord) (BatchWriter.Input FinalRecord) Empty :=
  BatchWriter.machine cfg.rowGroupSize cfg.flushInterval

def ParquetWriterConfig.rows (cfg : ParquetWriterConfig) (records : List FinalRecord) : Builders :=
  records.foldl (fun b r => b.append r cfg.leaderCache cfg.anchor) []

/-! ## The bench -/

namespace Bench

structure Config where
  preparer : PreparerConfig
  blockhashMaxAge : Duration := 50_000_000_000
  maxInflight : ℕ := 8
  deadline : Duration
  channelCapacity : ℕ := 65_536
  parquet : ParquetWriterConfig

/-- `try_send`, one message after the other. -/
def Config.trySend {α : Type} (cfg : Config) (connected : Bool) (queue xs : List α) :
    List α × List α :=
  (BoundedChannel.machine cfg.channelCapacity connected).run queue xs

/-- `schedule_set`. -/
def Config.schedule (cfg : Config) : Observer.TickSchedule :=
  (cfg.preparer.schedule.map ScheduleEntry.key).toFinset

/-- What the threads own, the pool and the pending signatures that they share (with the
observer), and the channels. -/
structure State where
  alreadySigned : AList (fun _ : ℕ × ℕ => Instant) := ∅
  cycle : Preparer.Cycle := ⟨0, 0, 0⟩
  observer : Observer.State := {}
  sendQueue : List SendCommand := []
  inflight : List Flight := []
  sendEvents : List SendEvent := []
  matchQueue : List MatchEvent := []
  finalizer : Finalizer := {}
  exited : Bool := false
  fallbackQueue : RpcFallback.FallbackQueue := {}
  finals : List FinalRecord := []
  writer : BatchWriter.State FinalRecord := {}
  fileOpen : Bool := true

inductive Input
  /-- The preparer has a blockhash and reads the slot. -/
  | fetched (blockhash : Hash)
  | expire (key : ℕ × ℕ) (now : Instant)
  | sign (entry : ScheduleEntry) (builtAt : Instant)
  | prune (key : ℕ × ℕ)
  | observe (obs : EntryObservation)
  /-- The dispatcher takes a command; `sendAt` is read after the check of its age. -/
  | dispatch (now sendAt : Instant)
  /-- The `n`th request in flight is answered. -/
  | answer (n : ℕ) (responseAt : Instant) (error : Option SendError)
  | takeSend (now : Instant)
  | takeMatch
  | sweep (now : Instant)
  /-- The finalizer leaves its loop. -/
  | exit
  /-- The Parquet writer cannot open its file. -/
  | noFile
  | takeFinal (now : Instant) (accepted : Bool)
  | idle (now : Instant) (accepted : Bool)

inductive Event
  | signed (x : Preparer.Signed)
  | expired (cmd : SendCommand)
  | sent (cmd : SendCommand) (now : Instant)
  | seen (ev : MatchEvent)
  /-- A send event that does not come to the finalizer. -/
  | lost (ev : SendEvent)
  /-- A record that does not come to the Parquet writer. -/
  | unrecorded (r : FinalRecord)
  deriving DecidableEq, Repr

def State.preparer (st : State) : Preparer.State := ⟨st.alreadySigned, st.observer.pool⟩

def State.setPreparer (st : State) (s : Preparer.State) : State :=
  { st with
    alreadySigned := s.alreadySigned
    observer := { st.observer with pool := s.pool } }

def command? : Observer.Event → Option SendCommand
  | .command cmd => some cmd
  | _ => none

def matched? : Observer.Event → Option MatchEvent
  | .matched ev => some ev
  | _ => none

def State.observe (cfg : Config) (st : State) (obs : EntryObservation) : State × List Event :=
  let r := Observer.processEntry cfg.schedule st.observer obs
  let evs := (Effect.sent r.2).filterMap matched?
  ({ st with
      observer := r.1
      sendQueue := (cfg.trySend true st.sendQueue ((Effect.sent r.2).filterMap command?)).1
      matchQueue := (cfg.trySend (!st.exited) st.matchQueue evs).1 }, evs.map .seen)

/-- `process_one` up to the request, for at most `max_inflight` commands at a time. -/
def State.dispatch (cfg : Config) (st : State) (now sendAt : Instant) : State × List Event :=
  match st.sendQueue with
  | [] => (st, [])
  | cmd :: rest =>
    if st.inflight.length < cfg.maxInflight then
      if Instant.saturatingDurationSince now cmd.tx.builtAt > cfg.blockhashMaxAge then
        ({ st with sendQueue := rest }, [.expired cmd])
      else
        ({ st with
            sendQueue := rest
            observer := { st.observer with
              pendingSigs := insert cmd.tx.signature st.observer.pendingSigs }
            inflight := st.inflight ++ [⟨cmd, sendAt⟩] }, [.sent cmd now])
    else (st, [])

/-- The end of a request: its send event goes to the finalizer. -/
def State.answer (cfg : Config) (st : State) (n : ℕ) (responseAt : Instant)
    (error : Option SendError) : State × List Event :=
  match st.inflight[n]? with
  | none => (st, [])
  | some f =>
    let r := cfg.trySend (!st.exited) st.sendEvents [f.sendEvent responseAt error]
    ({ st with inflight := st.inflight.eraseIdx n, sendEvents := r.1 }, r.2.map .lost)

def final? : Output → Option FinalRecord
  | .final r => some r
  | _ => none

/-- What the finalizer does to the others. -/
def applying (cfg : Config) : EventMachine State Output Event where
  step st
    | .forget sig =>
      ({ st with
          observer := { st.observer with pendingSigs := st.observer.pendingSigs.erase sig } }, [])
    | .fallback sig => ({ st with fallbackQueue := st.fallbackQueue.push sig }, [])
    | .final r =>
      let r := cfg.trySend st.fileOpen st.finals [r]
      ({ st with finals := r.1 }, r.2.map .unrecorded)

def State.finalize (cfg : Config) (st : State) (i : TickTriggerBench.Input) :
    State × List Event :=
  let r := (TickTriggerBench.finalizer cfg.deadline).step st.finalizer i
  (applying cfg).run { st with finalizer := r.1 } r.2

/-- An iteration of the finalizer, as long as it is there. With it go its two channels. -/
def State.finalizerStep (cfg : Config) (st : State) : Input → State × List Event
  | .takeSend now =>
    match st.sendEvents with
    | [] => (st, [])
    | ev :: rest => { st with sendEvents := rest }.finalize cfg (.send ev now)
  | .takeMatch =>
    match st.matchQueue with
    | [] => (st, [])
    | ev :: rest => { st with matchQueue := rest }.finalize cfg (.matched ev)
  | .sweep now => st.finalize cfg (.sweep now)
  | .exit =>
    let r := (applying cfg).run { st with finalizer := {}, exited := true } st.finalizer.drain
    ({ r.1 with sendEvents := [], matchQueue := [] }, r.2 ++ st.sendEvents.map .lost)
  | _ => (st, [])

/-- The Parquet writer leaves before it has taken a record, and with it goes its channel. -/
def State.noFile (st : State) : State × List Event :=
  if st.writer.batches.isEmpty ∧ st.writer.buffer.isEmpty then
    ({ st with fileOpen := false, finals := [] }, st.finals.map .unrecorded)
  else (st, [])

def State.takeFinal (cfg : Config) (st : State) (now : Instant) (accepted : Bool) : State :=
  match st.finals with
  | [] => st
  | r :: rest =>
    { st with
      finals := rest
      writer := ((parquetWriter cfg.parquet).step st.writer (.row r now accepted)).1 }

def machine (cfg : Config) : EventMachine State Input Event where
  step st
    | .fetched blockhash =>
      ({ st with cycle := ⟨blockhash, st.observer.currentSlot, 0⟩ }, [])
    | .expire key now => (st.setPreparer (st.preparer.expireKey key now), [])
    | .sign entry builtAt =>
      let r := Preparer.signEntry cfg.preparer st.preparer st.cycle entry builtAt
      ({ st.setPreparer r.1 with cycle := r.2.1 }, r.2.2.map .signed)
    | .prune key => (st.setPreparer (st.preparer.pruneKey st.cycle key), [])
    | .observe obs => st.observe cfg obs
    | .dispatch now sendAt => st.dispatch cfg now sendAt
    | .answer n responseAt error => st.answer cfg n responseAt error
    | .noFile => st.noFile
    | .takeFinal now accepted => (st.takeFinal cfg now accepted, [])
    | .idle now accepted =>
      ({ st with writer := ((parquetWriter cfg.parquet).step st.writer (.timeout now accepted)).1 }, [])
    | i => if st.exited then (st, []) else st.finalizerStep cfg i

end Bench
end SolanaBench.TickTriggerBench
