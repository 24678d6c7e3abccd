import Mathlib.Data.List.Basic
import Mathlib.Tactic.SplitIfs
import SolanaBench.EntrySources.Observation
import SolanaBench.Lib.EventMachine

/-! The durable nonce pool, the same in both fan-out crates: each nonce moves
through `Ready`, `InFlight`, `AwaitingUpdate` and `Stale` under a lock of its own. -/
namespace SolanaBench.Nonce

abbrev NonceId := ℕ

inductive NonceState
  | ready (blockhash : Hash)
  | inFlight (blockhashUsed : Hash) (since : Instant)
  | awaitingUpdate (blockhashUsed : Hash) (since : Instant)
  | stale (blockhashUsed : Hash) (since : Instant)
  deriving DecidableEq, Repr

namespace NonceState

def isReady : NonceState → Bool
  | ready _ => true
  | _ => false

def isStale : NonceState → Bool
  | stale _ _ => true
  | _ => false

/-- The hash cached in any state. -/
def blockhash : NonceState → Hash
  | ready bh => bh
  | inFlight bh _ => bh
  | awaitingUpdate bh _ => bh
  | stale bh _ => bh

/-! What each operation does under the lock of one entry. -/

def take (now : Instant) : NonceState → NonceState × Option Hash
  | ready bh => (inFlight bh now, some bh)
  | s => (s, none)

def accountUpdate (new : Hash) (s : NonceState) : NonceState × Bool :=
  if s.blockhash ≠ new then (ready new, true) else (s, false)

def observedLanding (now : Instant) : NonceState → NonceState
  | inFlight bh _ => awaitingUpdate bh now
  | s => s

def landingWithBlockhash (new : Hash) : NonceState → NonceState × Bool
  | ready bh => if bh ≠ new then (ready new, true) else (ready bh, false)
  | _ => (ready new, true)

def timeout (inFlightDeadline awaitingUpdateDeadline : Duration) (now : Instant) :
    NonceState → NonceState × Bool
  | inFlight bh since =>
    if now.saturatingDurationSince since ≥ inFlightDeadline then (stale bh now, true)
    else (inFlight bh since, false)
  | awaitingUpdate bh since =>
    if now.saturatingDurationSince since ≥ awaitingUpdateDeadline then (stale bh now, true)
    else (awaitingUpdate bh since, false)
  | s => (s, false)

def restoreUnchanged : NonceState → NonceState × Bool
  | ready bh => (ready bh, false)
  | s => (ready s.blockhash, true)

def fallbackRefresh (observed : Hash) : NonceState → NonceState
  | stale bh _ => if bh = observed then ready bh else ready observed
  | s => s

/-! What the operations keep. -/

theorem take_of_not_ready {s : NonceState} (h : s.isReady = false) (now : Instant) :
    s.take now = (s, none) := by
  cases s with
  | ready bh => cases h
  | _ => rfl

theorem take_blockhash (now : Instant) (s : NonceState) :
    (s.take now).1.blockhash = s.blockhash := by cases s <;> rfl

theorem restoreUnchanged_blockhash (s : NonceState) :
    s.restoreUnchanged.1.blockhash = s.blockhash := by cases s <;> rfl

theorem accountUpdate_blockhash (new : Hash) (s : NonceState) :
    (s.accountUpdate new).1.blockhash = new := by
  unfold accountUpdate
  split_ifs with h
  · rfl
  · exact not_not.mp h

theorem observedLanding_blockhash (now : Instant) (s : NonceState) :
    (s.observedLanding now).blockhash = s.blockhash := by cases s <;> rfl

theorem isReady_of_observedLanding {now : Instant} {s : NonceState}
    (h : (s.observedLanding now).isReady = true) : s.isReady = true := by
  cases s with
  | inFlight => cases h
  | _ => exact h

theorem timeout_blockhash (d d' : Duration) (now : Instant) (s : NonceState) :
    (s.timeout d d' now).1.blockhash = s.blockhash := by
  cases s <;> simp only [timeout] <;> split_ifs <;> rfl

theorem isReady_of_timeout {d d' : Duration} {now : Instant} {s : NonceState}
    (h : (s.timeout d d' now).1.isReady = true) : s.isReady = true := by
  cases s with
  | ready bh => rfl
  | stale bh since => cases h
  | _ =>
    simp only [timeout] at h
    split_ifs at h <;> cases h

theorem landingWithBlockhash_fst (new : Hash) (s : NonceState) :
    (s.landingWithBlockhash new).1 = ready new := by
  cases s with
  | ready bh =>
    by_cases h : bh = new <;> simp [landingWithBlockhash, h]
  | _ => rfl

theorem fallbackRefresh_of_not_stale {s : NonceState} (h : s.isStale = false) (observed : Hash) :
    s.fallbackRefresh observed = s := by
  cases s with
  | stale bh since => cases h
  | _ => rfl

theorem fallbackRefresh_stale (observed bh : Hash) (since : Instant) :
    (stale bh since).fallbackRefresh observed = ready observed := by
  by_cases h : bh = observed <;> simp [fallbackRefresh, h]

end NonceState

structure NonceEntry where
  id : NonceId
  pubkey : Pubkey
  state : NonceState
  deriving DecidableEq, Repr

structure NonceManager where
  entries : List NonceEntry
  rrCursor : ℕ := 0
  deriving DecidableEq, Repr

namespace NonceManager

def new (entries : List (NonceId × Pubkey × Hash)) : NonceManager where
  entries := entries.map fun e => ⟨e.1, e.2.1, .ready e.2.2⟩

/-- `get_by_id`: the first entry with the id. -/
def idIndex (m : NonceManager) (id : NonceId) : Option ℕ := m.entries.findIdx? fun e => e.id = id

/-- `get_by_pubkey`: the index map is collected in order, so the last entry wins. -/
def pubkeyIndex (m : NonceManager) (pk : Pubkey) : Option ℕ :=
  (m.entries.zipIdx.reverse.find? fun e => e.1.pubkey = pk).map Prod.snd

def setState (m : NonceManager) (idx : ℕ) (s : NonceState) : NonceManager :=
  { m with entries := m.entries.modify idx fun e => { e with state := s } }

/-! ## The operations as whole calls -/

/-- The loop of `take_ready` over the indices it visits. -/
def takeFirst (now : Instant) : List ℕ → NonceManager → NonceManager × Option (NonceId × Pubkey × Hash)
  | [], m => (m, none)
  | idx :: idxs, m =>
    match m.entries[idx]? with
    | none => takeFirst now idxs m
    | some e =>
      match e.state.take now with
      | (s, some bh) => (m.setState idx s, some (e.id, e.pubkey, bh))
      | (_, none) => takeFirst now idxs m

theorem takeFirst_of_ready {m : NonceManager} {idx : ℕ} {e : NonceEntry} {bh : Hash}
    (he : m.entries[idx]? = some e) (hs : e.state = .ready bh) (now : Instant) (idxs : List ℕ) :
    takeFirst now (idx :: idxs) m = (m.setState idx (.inFlight bh now), some (e.id, e.pubkey, bh)) := by
  simp [takeFirst, he, hs, NonceState.take]

theorem takeFirst_of_not_ready {m : NonceManager} {idx : ℕ}
    (h : ∀ e, m.entries[idx]? = some e → e.state.isReady = false) (now : Instant) (idxs : List ℕ) :
    takeFirst now (idx :: idxs) m = takeFirst now idxs m := by
  rw [takeFirst]
  cases he : m.entries[idx]? with
  | none => rfl
  | some e => simp [NonceState.take_of_not_ready (h e he)]

def takeReady (m : NonceManager) (now : Instant) :
    NonceManager × Option (NonceId × Pubkey × Hash) :=
  let n := m.entries.length
  if n = 0 then (m, none)
  else
    let start := m.rrCursor % n
    takeFirst now ((List.range n).map fun offset => (start + offset) % n)
      { m with rrCursor := (m.rrCursor + 1) % 2 ^ 64 }

def tickTimeouts (m : NonceManager) (inFlightDeadline awaitingUpdateDeadline : Duration)
    (now : Instant) : NonceManager × List (NonceId × Pubkey) :=
  let r := m.entries.map fun e =>
    let t := e.state.timeout inFlightDeadline awaitingUpdateDeadline now
    (({ e with state := t.1 } : NonceEntry), t.2)
  ({ m with entries := r.map Prod.fst },
    (r.filter Prod.snd).map fun e => (e.1.id, e.1.pubkey))

/-! ## The operations entry by entry

Threads interleave between two locks, so a run is a sequence of accesses to single
entries: `probe` is one iteration of `take_ready`, `timeout` one of `tick_timeouts`. -/

inductive Action
  | probe (idx : ℕ) (now : Instant)
  | accountUpdate (pubkey : Pubkey) (new : Hash)
  | observedLanding (id : NonceId) (now : Instant)
  | landingWithBlockhash (id : NonceId) (new : Hash)
  | timeout (idx : ℕ) (inFlightDeadline awaitingUpdateDeadline : Duration) (now : Instant)
  | restoreUnchanged (id : NonceId)
  | fallbackRefresh (pubkey : Pubkey) (observed : Hash)
  deriving DecidableEq, Repr

/-- The entry an action locks. -/
def target (m : NonceManager) : Action → Option ℕ
  | .probe idx _ => some idx
  | .accountUpdate pk _ => m.pubkeyIndex pk
  | .observedLanding id _ => m.idIndex id
  | .landingWithBlockhash id _ => m.idIndex id
  | .timeout idx _ _ _ => some idx
  | .restoreUnchanged id => m.idIndex id
  | .fallbackRefresh pk _ => m.pubkeyIndex pk

/-- What it does to the state it finds. -/
def Action.apply : Action → NonceState → NonceState
  | .probe _ now, s => (s.take now).1
  | .accountUpdate _ new, s => (s.accountUpdate new).1
  | .observedLanding _ now, s => s.observedLanding now
  | .landingWithBlockhash _ new, s => (s.landingWithBlockhash new).1
  | .timeout _ d d' now, s => (s.timeout d d' now).1
  | .restoreUnchanged _, s => s.restoreUnchanged.1
  | .fallbackRefresh _ observed, s => s.fallbackRefresh observed

/-- The nonce a `take_ready` returns out of the entry it has locked. -/
def Action.taken (a : Action) (e : NonceEntry) : List (NonceId × Pubkey × Hash) :=
  match a with
  | .probe _ now => ((e.state.take now).2.map fun bh => (e.id, e.pubkey, bh)).toList
  | _ => []

def step (m : NonceManager) (a : Action) : NonceManager × List (NonceId × Pubkey × Hash) :=
  match m.target a with
  | none => (m, [])
  | some idx =>
    match m.entries[idx]? with
    | none => (m, [])
    | some e => (m.setState idx (a.apply e.state), a.taken e)

def machine : EventMachine NonceManager Action (NonceId × Pubkey × Hash) where
  step := step

end NonceManager
end SolanaBench.Nonce
