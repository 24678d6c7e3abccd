import SolanaBench.TickTrigger.PohSequence
import SolanaBench.TickTrigger.Recorder

/-! The way of a slot's last hash: the supervisor sends ordered events, the trigger engine
writes their hashes to the slot hash cache and sends matches, and the recorder turns a
match into a next nonce from the cache as it is by then. Three threads, two channels. -/
namespace SolanaBench.TickTrigger.HashPipeline

open LocalCompute
open PohSupervisor (OrderedEvent entriesIn)
open TriggerEngine (MatchEvent Schedule)
open Recorder (RegisterEvent SendEvent RecorderConfig)

structure Config where
  supervisor : PohSupervisor.Config
  recorder : RecorderConfig
  window : ℕ
  /-- The capacity of `ordered_tx`. -/
  channelCapacity : ℕ

/-- A match observed in `observedSlot` gave a next nonce, from the hash cached for `sourceSlot`. -/
structure Use where
  observedSlot : ℕ
  sourceSlot : ℕ
  hash : Hash
  deriving DecidableEq, Repr

structure State where
  supervisor : PohSupervisor.State := {}
  /-- What the supervisor's current call has still to send. -/
  sending : List OrderedEvent := []
  stopped : Bool := false
  orderedQueue : List OrderedEvent := []
  engine : TriggerEngine.State := {}
  matchQueue : List MatchEvent := []
  recorder : Recorder.State := {}
  /-- All that the supervisor emitted, that the engine processed, and the hashes used. -/
  emitted : List OrderedEvent := []
  processed : List OrderedEvent := []
  uses : List Use := []

/-- The cache that the engine and the recorder share. -/
def State.cache (st : State) : SlotHashCache :=
  st.engine.nonceSlotHashCache.getD { window := 0 }

/-- The supervisor's thread is at the head of its loop. -/
def State.Idle (st : State) : Prop := st.sending = [] ∧ st.stopped = false

instance (st : State) : Decidable st.Idle := inferInstanceAs (Decidable (_ ∧ _))

inductive Input
  /-- Supervisor: an iteration of its loop, the final flush, the next `try_send`. -/
  | supervise (i : PohSupervisor.Input)
  | shutdown (now : Instant)
  | trySend
  /-- Engine: the next event, under the schedule loaded for it; a signature to look for. -/
  | engine (sched : Schedule) (now : Instant)
  | pend (sig : Signature)
  /-- A match that `match_tx` had no room for. -/
  | matchFull
  /-- Recorder: the next match, and its other messages. -/
  | matched (now : Instant)
  | register (reg : RegisterEvent)
  | outcome (s : SendEvent)
  | deadlines (now : Instant)

/-- A call of the supervisor leaves its events to be sent. -/
def State.called (st : State) (r : PohSupervisor.State × List PohSupervisor.Output) : State :=
  { st with
    supervisor := r.1
    sending := Effect.sent r.2
    emitted := st.emitted ++ Effect.sent r.2 }

/-- `out_tx.try_send(event)`: a full channel loses the event. -/
def trySend (cfg : Config) (st : State) : State :=
  match st.sending with
  | [] => st
  | event :: rest =>
    { st with
      sending := rest
      orderedQueue := if st.orderedQueue.length < cfg.channelCapacity then st.orderedQueue ++ [event]
        else st.orderedQueue }

def matchesIn (os : List TriggerEngine.Output) : List MatchEvent :=
  (Effect.sent os).filterMap fun
    | .matched m => some m
    | .trigger _ => none

def engine (st : State) (sched : Schedule) (now : Instant) : State :=
  match st.orderedQueue with
  | [] => st
  | event :: rest =>
    let r := TriggerEngine.handleEvent sched st.engine event now
    { st with
      orderedQueue := rest
      engine := r.1
      matchQueue := st.matchQueue ++ matchesIn r.2
      processed := st.processed ++ [event] }

/-- The next nonces handed to the manager, with the cache entry each was computed from. -/
def usesIn (cfg : RecorderConfig) (m : MatchEvent) (cache : SlotHashCache)
    (os : List Recorder.Output) : List Use :=
  (Effect.sent os).filterMap fun
    | .nonce (.landingWithBlockhash _ _) =>
      (cache.nextNonceForLandedSlot cfg.computeNextDurableNonce m.observedSlot 5).map
        fun r => ⟨m.observedSlot, r.1, r.2.1⟩
    | _ => none

def matched (cfg : Config) (st : State) (now : Instant) : State :=
  match st.matchQueue with
  | [] => st
  | m :: rest =>
    let r := (Recorder.machine cfg.recorder).step st.recorder (.matched m st.cache now)
    { st with
      matchQueue := rest
      recorder := r.1
      uses := st.uses ++ usesIn cfg.recorder m st.cache r.2 }

def record (cfg : Config) (st : State) (i : Recorder.Input) : State :=
  { st with recorder := ((Recorder.machine cfg.recorder).step st.recorder i).1 }

def next (cfg : Config) (st : State) : Input → State
  | .supervise i =>
    if st.Idle then st.called ((PohSupervisor.machine cfg.supervisor).step st.supervisor i) else st
  | .shutdown now =>
    if st.Idle then
      { st.called (PohSupervisor.shutdown cfg.supervisor st.supervisor now) with stopped := true }
    else st
  | .trySend => trySend cfg st
  | .engine sched now => engine st sched now
  | .pend sig => { st with engine := ((TriggerEngine.machine ∅).step st.engine (.register sig)).1 }
  | .matchFull => { st with matchQueue := st.matchQueue.tail }
  | .matched now => matched cfg st now
  | .register reg => record cfg st (.register reg)
  | .outcome s => record cfg st (.send s)
  | .deadlines now => record cfg st (.sweep now)

def machine (cfg : Config) : EventMachine State Input Empty where
  step st i := (next cfg st i, [])

def initial (cfg : Config) : State where
  engine := { nonceSlotHashCache := some { window := cfg.window } }

/-! ## Fresh hashes -/

/-- The hash used is that of the highest entry of the source slot in `emitted`. -/
def Use.Fresh (emitted : List OrderedEvent) (u : Use) : Prop :=
  ∃ e ∈ entriesIn emitted, e.slot = u.sourceSlot ∧
    (∀ f ∈ entriesIn emitted, f.slot = u.sourceSlot → f.entryIndex ≤ e.entryIndex) ∧
    u.hash = e.observation.entryHash

/-- All entries of lower slots were processed before an entry. -/
def Settled (emitted pre : List OrderedEvent) (x : OrderedEvent) : Prop :=
  ∀ e ∈ x.entry?, ∀ f ∈ entriesIn emitted, f.slot < e.slot → .entry f ∈ pre

structure HashesFresh (st : State) : Prop where
  fresh : ∀ u ∈ st.uses, u.Fresh st.emitted
  settled : EverySplit (Settled st.emitted) st.processed

instance (emitted : List OrderedEvent) (u : Use) : Decidable (u.Fresh emitted) :=
  inferInstanceAs (Decidable (∃ e ∈ _, _ ∧ (∀ f ∈ _, _ → _) ∧ _))

/-! ## When the steps are in turn -/

/-- The supervisor's calls are in turn, and its entries find room in the channel. -/
def InTurn (cfg : Config) (st : State) : Input → Prop
  | .supervise i => st.Idle → PohSupervisor.InTurn cfg.supervisor st.supervisor st.emitted i
  | .shutdown now => st.Idle →
    PohSupervisor.SweepsInTurn cfg.supervisor st.supervisor.slots now fun _ => true
  | .trySend => ∀ event ∈ st.sending.head?, event.entry? ≠ none →
    st.orderedQueue.length < cfg.channelCapacity
  | _ => True

instance (cfg : Config) (st : State) (i : Input) : Decidable (InTurn cfg st i) := by
  cases i <;> unfold InTurn <;> infer_instance

end SolanaBench.TickTrigger.HashPipeline
