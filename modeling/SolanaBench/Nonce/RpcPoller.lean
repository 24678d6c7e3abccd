import Mathlib.Logic.Function.Basic
import SolanaBench.Lib.History
import SolanaBench.Nonce.Manager

/-! The RPC poller for stale nonces, one lock or one RPC call at a time, and what runs
beside it: the preparer, the matcher with its restores and its landing hook, and the
nonce accounts on chain. The two fan-out crates have the same poller. -/
namespace SolanaBench.Nonce.RpcPoller

/-- The poller thread between two accesses. `refreshing` holds the answers of the last
call that are not yet applied, and the pubkeys not yet asked for. -/
inductive Poller
  | sleeping
  | ticking (idx : ℕ) (now : Instant)
  | collecting (idx : ℕ) (stalePubkeys : List Pubkey)
  | refreshing (answers : List (Pubkey × Hash)) (pubkeys : List Pubkey)
  deriving DecidableEq, Repr

structure RpcPollerConfig where
  inFlightDeadline : Duration
  awaitingUpdateDeadline : Duration

structure System where
  manager : NonceManager
  chain : Pubkey → History Hash
  poller : Poller := .sleeping

inductive Input
  /-- One iteration of `take_ready`. -/
  | take (idx : ℕ) (now : Instant)
  | restore (id : NonceId)
  /-- The landing hook, with and without the next value at hand. -/
  | hook (id : NonceId)
  | hookMiss (id : NonceId) (now : Instant)
  /-- A transaction lands and leaves a new value in the account. -/
  | land (account : Pubkey) (value : Hash)
  | wake (now : Instant)
  | poll
  /-- `get_multiple_accounts` for the next chunk: it fails, or answers for the accounts
  that exist and parse. -/
  | rpc (parsed : Option (Pubkey → Bool))

/-- What `take_ready` hands out of the entry at `idx`. -/
structure Taken where
  idx : ℕ
  account : Pubkey
  blockhash : Hash
  deriving DecidableEq, Repr

def System.manage (sys : System) (a : NonceManager.Action) : System :=
  { sys with manager := (sys.manager.step a).1 }

/-- The hook learns the account's value before it changes again. -/
def hook (sys : System) (id : NonceId) : System :=
  match sys.manager.idIndex id with
  | none => sys
  | some k =>
    match sys.manager.entries[k]? with
    | none => sys
    | some e => sys.manage (.landingWithBlockhash id (sys.chain e.pubkey).latest)

def land (sys : System) (account : Pubkey) (value : Hash) : System :=
  if h : value ∈ (sys.chain account).values then sys
  else { sys with chain := Function.update sys.chain account ((sys.chain account).extend value h) }

def poll (cfg : RpcPollerConfig) (sys : System) : System :=
  match sys.poller with
  | .sleeping => sys
  | .ticking idx now =>
    if idx < sys.manager.entries.length then
      { sys.manage (.timeout idx cfg.inFlightDeadline cfg.awaitingUpdateDeadline now) with
        poller := .ticking (idx + 1) now }
    else { sys with poller := .collecting 0 [] }
  | .collecting idx stalePubkeys =>
    match sys.manager.entries[idx]? with
    | some e =>
      { sys with
        poller := .collecting (idx + 1)
          (if e.state.isStale then stalePubkeys ++ [e.pubkey] else stalePubkeys) }
    | none => { sys with poller := .refreshing [] stalePubkeys }
  | .refreshing ((account, value) :: answers) pubkeys =>
    { sys.manage (.fallbackRefresh account value) with poller := .refreshing answers pubkeys }
  | .refreshing [] [] => { sys with poller := .sleeping }
  | .refreshing [] (_ :: _) => sys

/-- The answers for one chunk, read from the chain at once. -/
def readChunk (sys : System) (parsed : Pubkey → Bool) (pubkeys : List Pubkey) :
    List (Pubkey × Hash) :=
  ((pubkeys.take 100).filter parsed).map fun account => (account, (sys.chain account).latest)

def rpc (sys : System) (parsed : Option (Pubkey → Bool)) : System :=
  match sys.poller, parsed with
  | .refreshing [] (pk :: pubkeys), some parsed =>
    { sys with
      poller := .refreshing (readChunk sys parsed (pk :: pubkeys)) ((pk :: pubkeys).drop 100) }
  | .refreshing [] (_ :: _), none => { sys with poller := .sleeping }
  | _, _ => sys

def wake (sys : System) (now : Instant) : System :=
  match sys.poller with
  | .sleeping => { sys with poller := .ticking 0 now }
  | _ => sys

def step (cfg : RpcPollerConfig) (sys : System) : Input → System × List Taken
  | .take idx now =>
    (sys.manage (.probe idx now),
      (sys.manager.step (.probe idx now)).2.map fun t => ⟨idx, t.2.1, t.2.2⟩)
  | .restore id => (sys.manage (.restoreUnchanged id), [])
  | .hook id => (hook sys id, [])
  | .hookMiss id now => (sys.manage (.observedLanding id now), [])
  | .land account value => (land sys account value, [])
  | .wake now => (wake sys now, [])
  | .poll => (poll cfg sys, [])
  | .rpc parsed => (rpc sys parsed, [])

def machine (cfg : RpcPollerConfig) : EventMachine System Input Taken where
  step := step cfg

/-- The pool as bootstrapped: every nonce is ready with the value its account has. -/
def start (accounts : List (NonceId × Pubkey)) (value : Pubkey → Hash) : System where
  manager := NonceManager.new (accounts.map fun a => (a.1, a.2, value a.2))
  chain account := History.start (value account)

end SolanaBench.Nonce.RpcPoller
