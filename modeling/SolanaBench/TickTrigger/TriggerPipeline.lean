import SolanaBench.Lib.Pipe
import SolanaBench.TickTrigger.MergerDedup
import SolanaBench.TickTrigger.PohTransparency
import SolanaBench.TickTrigger.TriggerFiring

/-! The chain from the two feeds to the triggers: merger, supervisor and engine are threads
joined by FIFO channels with room. A run of the chain is a run of each thread on what the
one before it has sent. -/
namespace SolanaBench.TickTrigger

/-- The supervisor takes the next merged entry, or runs its periodic sweep. -/
def PohSupervisor.intake : Intake MergedEntry Instant Instant PohSupervisor.Input where
  recv now m := .arrival m now
  aside now := .sweep now
  passed?
    | .arrival m _ => some m
    | .sweep _ => none
  passed_recv _ _ := rfl
  passed_aside _ := rfl

/-- The engine takes the next ordered event, or a signature to look for. -/
def TriggerEngine.intake :
    Intake PohSupervisor.OrderedEvent Signature Instant TriggerEngine.Input where
  recv now event := .ordered event now
  aside sig := .register sig
  passed?
    | .ordered event _ => some event
    | .register _ => none
  passed_recv _ _ := rfl
  passed_aside _ := rfl

namespace TriggerPipeline

open Merger (Arrival)

/-- The merger and the supervisor. -/
abbrev Ordering := Piped Merger.State Arrival MergedEntry PohSupervisor.State PohSupervisor.Input

abbrev OrderingInput := PipeInput Arrival Instant Instant

def ordering (cfg : PohSupervisor.Config) :
    EventMachine Ordering OrderingInput PohSupervisor.Output :=
  Merger.machine.pipe Effect.sent? (PohSupervisor.machine cfg) PohSupervisor.intake

/-- And the engine behind them. -/
abbrev State :=
  Piped Ordering OrderingInput PohSupervisor.OrderedEvent TriggerEngine.State TriggerEngine.Input

abbrev Input := PipeInput OrderingInput Instant Signature

def machine (cfg : PohSupervisor.Config) (sched : TriggerEngine.Schedule) :
    EventMachine State Input TriggerEngine.Output :=
  (ordering cfg).pipe Effect.sent? (TriggerEngine.machine sched) TriggerEngine.intake

def start : State where
  upstream := { upstream := {}, downstream := {} }
  downstream := {}

/-- A message of either source. -/
def receive (obs : EntryObservation) (source : SourceKind) : Input := .up (.up (obs, source))

/-- An iteration of the supervisor on the next merged entry, and one that only sweeps. -/
def supervise (now : Instant) : Input := .up (.down now)

def sweep (now : Instant) : Input := .up (.aside now)

/-- An iteration of the engine. -/
def engine (now : Instant) : Input := .down now

/-! ## The chain as three runs -/

def received (st : State) : List Arrival := st.upstream.given

def mergedQueue (st : State) : List MergedEntry := st.upstream.queue

def supervised (st : State) : List PohSupervisor.Input := st.upstream.taken

def orderedQueue (st : State) : List PohSupervisor.OrderedEvent := st.queue

def handled (st : State) : List TriggerEngine.Input := st.taken

/-- Each thread has run on what it took in, and has taken in a first part of what the one
before it sent. -/
structure Linked (cfg : PohSupervisor.Config) (sched : TriggerEngine.Schedule) (st : State)
    (os : List TriggerEngine.Output) : Prop where
  merged : Merger.emitted (received st) =
    (supervised st).filterMap PohSupervisor.intake.passed? ++ mergedQueue st
  ordered : Effect.sent ((PohSupervisor.machine cfg).run {} (supervised st)).2 =
    (handled st).filterMap TriggerEngine.intake.passed? ++ orderedQueue st
  outputs : os = ((TriggerEngine.machine sched).run {} (handled st)).2

theorem linked_run (cfg : PohSupervisor.Config) (sched : TriggerEngine.Schedule) (xs : List Input) :
    Linked cfg sched ((machine cfg sched).run start xs).1 ((machine cfg sched).run start xs).2 := by
  have houter := EventMachine.linked_run (ordering cfg) Effect.sent? (TriggerEngine.machine sched)
    TriggerEngine.intake { upstream := {}, downstream := {} } {} xs
  change EventMachine.Linked _ _ _ _ _ _ ((machine cfg sched).run start xs).1
    ((machine cfg sched).run start xs).2 at houter
  generalize ((machine cfg sched).run start xs).1 = st at *
  have hinner := EventMachine.linked_run Merger.machine Effect.sent? (PohSupervisor.machine cfg)
    PohSupervisor.intake {} {} st.given
  change EventMachine.Linked _ _ _ _ _ _ ((ordering cfg).run _ st.given).1
    ((ordering cfg).run _ st.given).2 at hinner
  have hpassed := houter.passed
  rw [← houter.upstream] at hinner
  rw [hinner.outputs] at hpassed
  exact ⟨hinner.passed, hpassed, houter.outputs⟩

end TriggerPipeline
end SolanaBench.TickTrigger
