import SolanaBench.Lib.BoundedChannel
import SolanaBench.TickTrigger.PoolMiss
import SolanaBench.TickTrigger.Recorder
import SolanaBench.TickTrigger.Schedule

/-! A run of the bench with its threads side by side: the pump publishes the schedule, the preparer
signs for it, the trigger engine fires on the ordered stream, the dispatcher fans the variants of a
trigger out, and the recorder joins each attempt with its reply and its match. The channels between
them are bounded, and nobody waits for room in one. -/
namespace SolanaBench.TickTrigger.Phase3

open Nonce Dispatcher
open TriggerEngine (TriggerEvent MatchEvent TriggerId)
open Recorder (RegisterEvent SendOutcome SendEvent TriggerRecord RecorderConfig)

/-- The two text fields of a client, and the name of its configuration, by sender id. -/
structure Config where
  preparer : PreparerConfig
  recorder : RecorderConfig
  senderName : ℕ → String
  endpointUrl : ℕ → String
  protocol : ℕ → String
  /-- `sources.channel_capacity`, for the entries of the schedule. -/
  channelCapacity : ℕ

/-- `enabled_senders`. -/
def Config.senders (cfg : Config) : List SenderConfig :=
  cfg.preparer.senders.filter SenderConfig.enabled

/-- The capacity of the other channels. -/
def queueCapacity : ℕ := 8192

/-- A request under way. -/
structure Flight where
  triggerId : TriggerId
  senderId : ℕ
  tx : TxBuilder.Transaction
  deriving DecidableEq, Repr

/-- What the threads own and share, and the channels between them. -/
structure State where
  schedule : ScheduleGen.Schedule
  /-- The rest of a chunk that the pump is sending. -/
  chunk : List ScheduleEntry := []
  accumulated : TriggerEngine.Schedule := ∅
  snapshot : TriggerEngine.Schedule := ∅
  scheduleQueue : List ScheduleEntry := []
  pending : Option ScheduleEntry := none
  pool : TxPool := {}
  engine : TriggerEngine.State := {}
  triggerQueue : List TriggerEvent := []
  rotators : Rotators
  /-- What is left to send of the trigger that the dispatcher is at. -/
  hand : List (TriggerEvent × PreSignedTx) := []
  flights : List Flight := []
  registerQueue : List RegisterEvent := []
  sendQueue : List SendEvent := []
  matchQueue : List MatchEvent := []
  recorder : Recorder.State := {}
  exited : Bool := false

inductive Input
  /-- The pump's next chunk, with what is drawn for it. -/
  | nextChunk (draws : List ScheduleGen.Draw)
  | offer
  | publish
  /-- An iteration of the preparer, with what the nonce manager and the blockhash cache answer. -/
  | prepare (currentSlot : ℕ) (ready : Option (NonceId × Pubkey × Hash)) (cached : Option Hash)
      (tips : Tips) (now : Instant)
  | evict (currentSlot : ℕ)
  | ordered (event : PohSupervisor.OrderedEvent) (now : Instant)
  | takeTrigger (cached : Option Hash) (clock : ℕ → Instant)
  | sendVariant
  | answer (n : ℕ) (outcome : SendOutcome)
  | takeRegister
  | takeReply
  | takeMatch (now : Instant)
  | sweep (now : Instant)
  /-- The recorder leaves its loop. -/
  | exit

inductive Event
  | taken (t : TriggerEvent)
  | skipped (t : TriggerEvent)
  | sent (t : TriggerEvent) (v : PreSignedTx)
  /-- A registration that does not come to the recorder. -/
  | unregistered (reg : RegisterEvent)
  | answered (s : SendEvent)
  | seen (m : MatchEvent)
  | row (r : TriggerRecord)
  | nonce (a : NonceManager.Action)
  deriving DecidableEq, Repr

def trigger? : TriggerEngine.Event → Option TriggerEvent
  | .trigger t => some t
  | .matched _ => none

def matched? : TriggerEngine.Event → Option MatchEvent
  | .matched m => some m
  | .trigger _ => none

/-- What the recorder does to the outside. -/
def ofRecorder : Recorder.Event → Event
  | .record r => .row r
  | .nonce a => .nonce a

namespace State

/-- `try_send` on a channel to the recorder, one message after the other. -/
def toRecorder {α : Type} (st : State) (queue xs : List α) : List α × List α :=
  (BoundedChannel.machine queueCapacity (!st.exited)).run queue xs

def nextChunk (st : State) (draws : List ScheduleGen.Draw) : State :=
  match st.chunk, st.schedule.nextChunk draws with
  | [], some r => { st with chunk := r.1, schedule := r.2.1 }
  | _, _ => st

def offer (cfg : Config) (st : State) : State :=
  match st.chunk with
  | [] => st
  | e :: chunk =>
    { st with
      chunk := chunk
      accumulated := insert (e.slot, e.tick) st.accumulated
      scheduleQueue := (BoundedChannel.trySend cfg.channelCapacity true st.scheduleQueue e).1 }

def publish (st : State) : State :=
  if st.chunk = [] then { st with snapshot := st.accumulated } else st

/-- The entry that is waiting for a nonce or a blockhash comes before the queue. -/
def nextEntry (st : State) : Option (ScheduleEntry × State) :=
  match st.pending, st.scheduleQueue with
  | some e, _ => some (e, { st with pending := none })
  | none, e :: rest => some (e, { st with scheduleQueue := rest })
  | none, [] => none

def prepare (cfg : Config) (st : State) (currentSlot : ℕ)
    (ready : Option (NonceId × Pubkey × Hash)) (cached : Option Hash) (tips : Tips)
    (now : Instant) : State :=
  match st.nextEntry with
  | none => st
  | some (entry, st) =>
    if Preparer.isPast entry currentSlot then st
    else
      let source : Option (Hash × Option (NonceId × Pubkey)) :=
        if cfg.recorder.nonceMode then ready.map fun n => (n.2.2, some (n.1, n.2.1))
        else cached.map fun bh => (bh, none)
      match source with
      | none => { st with pending := some entry }
      | some (bh, nonce) =>
        { st with
          pool := st.pool.insertAll entry (Preparer.variants cfg.preparer tips entry bh nonce now) }

def ordered (st : State) (event : PohSupervisor.OrderedEvent) (now : Instant) :
    State × List Event :=
  let r := TriggerEngine.handleEvent st.snapshot st.engine event now
  let seen := (Effect.sent r.2).filterMap matched?
  ({ st with
      engine := r.1
      triggerQueue := ((BoundedChannel.machine queueCapacity true).run st.triggerQueue
        ((Effect.sent r.2).filterMap trigger?)).1
      matchQueue := (st.toRecorder st.matchQueue seen).1 }, seen.map .seen)

def takeTrigger (cfg : Config) (st : State) (cached : Option Hash) (clock : ℕ → Instant) :
    State × List Event :=
  match st.hand, st.triggerQueue with
  | [], t :: rest =>
    let r := variantsOf cfg.preparer cfg.recorder.nonceMode cached t clock st.pool st.rotators
    let st := { st with triggerQueue := rest, pool := r.2.1, rotators := r.2.2 }
    match r.1 with
    | none => (st, [.taken t, .skipped t])
    | some txs => ({ st with hand := txs.map fun v => (t, v) }, [.taken t])
  | _, _ => (st, [])

def registerEvent (cfg : Config) (t : TriggerEvent) (v : PreSignedTx) : RegisterEvent where
  triggerId := t.triggerId
  senderId := v.senderId
  senderName := cfg.senderName v.senderId
  endpointUrl := cfg.endpointUrl v.senderId
  protocol := cfg.protocol v.senderId
  signature := v.signature
  slot := t.slot
  tick := t.tick
  triggerObservedAt := t.triggerObservedAt
  preparedAt := v.preparedAt
  blockhash := v.blockhash
  nonceId := v.nonceId

/-- A variant of a sender that is not configured is dropped after its signature was noted. -/
def sendVariant (cfg : Config) (st : State) : State × List Event :=
  match st.hand with
  | [] => (st, [])
  | (t, v) :: hand =>
    let st :=
      { st with
        hand := hand
        engine := { st.engine with pendingSigs := insert v.signature st.engine.pendingSigs } }
    if cfg.senders.any fun sc => sc.id = v.senderId then
      let r := st.toRecorder st.registerQueue [registerEvent cfg t v]
      ({ st with
          registerQueue := r.1
          flights := st.flights ++ [⟨t.triggerId, v.senderId, v.tx⟩] },
        .sent t v :: r.2.map .unregistered)
    else (st, [])

def answer (st : State) (n : ℕ) (outcome : SendOutcome) : State × List Event :=
  match st.flights[n]? with
  | none => (st, [])
  | some f =>
    let s : SendEvent := ⟨f.triggerId, f.senderId, outcome⟩
    ({ st with
        flights := st.flights.eraseIdx n
        sendQueue := (st.toRecorder st.sendQueue [s]).1 }, [.answered s])

/-- An iteration of the recorder on a message. -/
def record (cfg : Config) (st : State) (i : Recorder.Input) : State × List Event :=
  let r := (Recorder.machine cfg.recorder).step st.recorder i
  ({ st with recorder := r.1 }, (Effect.sent r.2).map ofRecorder)

def recorderStep (cfg : Config) (st : State) : Input → State × List Event
  | .takeRegister =>
    match st.registerQueue with
    | [] => (st, [])
    | reg :: rest => { st with registerQueue := rest }.record cfg (.register reg)
  | .takeReply =>
    match st.sendQueue with
    | [] => (st, [])
    | s :: rest => { st with sendQueue := rest }.record cfg (.send s)
  | .takeMatch now =>
    match st.matchQueue with
    | [] => (st, [])
    | m :: rest =>
      { st with matchQueue := rest }.record cfg
        (.matched m (st.engine.nonceSlotHashCache.getD ⟨∅, 256⟩) now)
  | .sweep now => st.record cfg (.sweep now)
  | .exit =>
    let r := Recorder.flush cfg.recorder st.recorder
    -- with the recorder go its three channels
    ({ st with
        registerQueue := []
        sendQueue := []
        matchQueue := []
        recorder := r.1
        exited := true }, (Effect.sent r.2).map ofRecorder ++ st.registerQueue.map .unregistered)
  | _ => (st, [])

end State

def step (cfg : Config) (st : State) : Input → State × List Event
  | .nextChunk draws => (st.nextChunk draws, [])
  | .offer => (st.offer cfg, [])
  | .publish => (st.publish, [])
  | .prepare currentSlot ready cached tips now =>
    (st.prepare cfg currentSlot ready cached tips now, [])
  | .evict currentSlot => ({ st with pool := Preparer.maybeEvict st.pool currentSlot }, [])
  | .ordered event now => st.ordered event now
  | .takeTrigger cached clock => st.takeTrigger cfg cached clock
  | .sendVariant => st.sendVariant cfg
  | .answer n outcome => st.answer n outcome
  | i => if st.exited then (st, []) else st.recorderStep cfg i

def machine (cfg : Config) : EventMachine State Input Event where
  step := step cfg

def start (cfg : Config) (startSlot chunkSize triggersPerSlot : ℕ) : State where
  schedule := ScheduleGen.Schedule.new startSlot chunkSize triggersPerSlot
  engine := { nonceSlotHashCache := if cfg.recorder.nonceMode then some ⟨∅, 256⟩ else none }
  rotators := fallbackRotators cfg.senders fun _ => 0

end SolanaBench.TickTrigger.Phase3
