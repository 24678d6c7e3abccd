import Mathlib.Data.List.AList
import SolanaBench.Lib.Decimal
import SolanaBench.Lib.EventMachine
import SolanaBench.LeaderMap.Aggregate

/-! The snapshots of the epochs as files of one directory, and the commands that write and read
them. The services that are asked and `serde_json` are parameters. -/
namespace SolanaBench.LeaderMap

/-- A validator as `validators.app` lists it. -/
structure RawValidator where
  account : Option String
  name : Option String
  voteAccount : Option String
  activeStake : Option ℕ
  countryCode : Option String
  dataCenterKey : Option String
  autonomousSystemNumber : Option ℕ
  asn : Option String
  ip : Option String

def mapRaw (r : RawValidator) : Option ValidatorInfo :=
  r.account.map fun identity =>
    { identity := identity
      name := r.name
      voteAccount := r.voteAccount
      activeStakeLamports := r.activeStake.getD 0
      countryCode := r.countryCode
      dataCenterKey := r.dataCenterKey
      asn := r.autonomousSystemNumber
      asnOrganization := r.asn
      ip := r.ip }

structure CachedSnapshot extends EpochSnapshot where
  fetchedAt : ℕ
  slotsInEpoch : ℕ

/-- `epoch_first_slot() + slots_in_epoch - 1`. -/
def CachedSnapshot.epochLastSlot (s : CachedSnapshot) : ℕ :=
  (s.epoch.epochFirstSlot + s.slotsInEpoch + (2 ^ 64 - 1)) % 2 ^ 64

/-- `to_string_pretty` and `from_str`. -/
structure SerdeJson where
  render : CachedSnapshot → String
  parse : String → Option CachedSnapshot

/-- The order in which `read_dir` lists the files. -/
structure ReadDir where
  order : List String → List String
  perm : ∀ names, (order names).Perm names

/-- The texts of the files by name. -/
abbrev Dir := AList fun _ : String => String

inductive CliError
  | read (path : String)
  | parse (path : String)
  | noCachedSnapshot
  | service (error : String)
  | invalidRange (input : String)
  | parseStart (input : String)
  | parseEnd (input : String)
  | endBeforeStart
  deriving DecidableEq, Repr

/-! ## The cache -/

namespace Cache

def nameStart : List Char := "leader-map-epoch-".toList
def nameEnd : List Char := ".json".toList

def snapshotPath (epoch : ℕ) : String :=
  String.ofList (nameStart ++ Nat.toDigits 10 epoch ++ nameEnd)

def save (serde : SerdeJson) (dir : Dir) (snap : CachedSnapshot) : Dir :=
  dir.insert (snapshotPath snap.epoch.epoch) (serde.render snap)

def load (serde : SerdeJson) (dir : Dir) (epoch : ℕ) : Except CliError CachedSnapshot :=
  match dir.lookup (snapshotPath epoch) with
  | none => .error (.read (snapshotPath epoch))
  | some raw =>
    match serde.parse raw with
    | none => .error (.parse (snapshotPath epoch))
    | some snap => .ok snap

/-- The number in a file name. -/
def epochOf (name : String) : Option ℕ :=
  match name.toList.dropPrefix? nameStart with
  | none => none
  | some rest =>
    match rest.dropSuffix? nameEnd with
    | none => none
    | some epochStr => Text.parseU64 epochStr

/-- One file of the loop, beside the greatest number so far. -/
def newer (newest : Option ℕ) (name : String) : Option ℕ :=
  match epochOf name with
  | none => newest
  | some epoch => if newest.all fun e => epoch > e then some epoch else newest

def newest (names : List String) : Option ℕ := names.foldl newer none

/-- The file is opened by its number, whatever its name was. -/
def latestSnapshot (serde : SerdeJson) (readDir : ReadDir) (dir : Dir) :
    Except CliError (Option CachedSnapshot) :=
  match newest (readDir.order dir.keys) with
  | none => .ok none
  | some epoch => (load serde dir epoch).map some

end Cache

/-! ## The commands -/

inductive Command
  | fetch (force : Bool)
  | summary (epoch : Option ℕ)
  | atSlot (slot : ℕ) (epoch : Option ℕ)
  | slots (range : String) (epoch : Option ℕ)
  | exportJson (epoch : Option ℕ)

/-- What the two services answer to a `fetch`: the epoch and its number of slots, and what the
two requests that are made at once come to. -/
structure Answers where
  epochInfo : Except String (EpochInfo × ℕ)
  joined : Except String (List RawValidator × LeaderSchedule)
  now : ℕ

structure Input where
  command : Command
  readDir : ReadDir
  answers : Answers

/-- What a command prints. -/
inductive Line (F : Type)
  | alreadyCached (path : String)
  | fetched (epoch validators leaders : ℕ) (path : String)
  | summary (s : EpochSummary F)
  | slotRange (entries : List SlotEntry)
  | outside (slot epoch first last : ℕ)
  | noSlots (first last : ℕ)
  | json (text : String)
  | error (e : CliError)

namespace Cli

variable {F : Type}

/-- A text with one separator has two parts. -/
def parseRange (input : String) : Except CliError (ℕ × ℕ) :=
  match Text.splitOnce ['.', '.'] input.toList with
  | none => .error (.invalidRange input)
  | some (first, last) =>
    if (Text.splitOnce ['.', '.'] last).isSome then .error (.invalidRange input)
    else
      match Text.parseU64 first with
      | none => .error (.parseStart input)
      | some start =>
        match Text.parseU64 last with
        | none => .error (.parseEnd input)
        | some stop => .ok (start, stop)

def loadSnapshot (serde : SerdeJson) (readDir : ReadDir) (dir : Dir) :
    Option ℕ → Except CliError CachedSnapshot
  | some e => Cache.load serde dir e
  | none =>
    match Cache.latestSnapshot serde readDir dir with
    | .error e => .error e
    | .ok none => .error .noCachedSnapshot
    | .ok (some snap) => .ok snap

def fetch (serde : SerdeJson) (dir : Dir) (force : Bool) (answers : Answers) :
    Dir × List (Line F) :=
  match answers.epochInfo with
  | .error e => (dir, [.error (.service e)])
  | .ok (epochInfo, slotsInEpoch) =>
    let cachePath := Cache.snapshotPath epochInfo.epoch
    if cachePath ∈ dir ∧ force = false then (dir, [.alreadyCached cachePath])
    else
      match answers.joined with
      | .error e => (dir, [.error (.service e)])
      | .ok (raw, schedule) =>
        let snap : CachedSnapshot :=
          { epoch := epochInfo
            validators := raw.filterMap mapRaw
            schedule := schedule
            fetchedAt := answers.now
            slotsInEpoch := slotsInEpoch }
        (Cache.save serde dir snap,
          [.fetched epochInfo.epoch snap.validators.length snap.schedule.size cachePath])

def summaryCmd (f : Float64 F) (snap : Except CliError CachedSnapshot) : List (Line F) :=
  match snap with
  | .error e => [.error e]
  | .ok snap => [.summary (summarize f snap.toEpochSnapshot (buildSlotMap snap.toEpochSnapshot))]

def atCmd (snap : Except CliError CachedSnapshot) (slot : ℕ) : List (Line F) :=
  match snap with
  | .error e => [.error e]
  | .ok snap =>
    match (buildSlotMap snap.toEpochSnapshot).get? slot with
    | some entry => [.slotRange [entry]]
    | none => [.outside slot snap.epoch.epoch snap.epoch.epochFirstSlot snap.epochLastSlot]

/-- The range comes before the snapshot. -/
def slotsCmd (snap : Except CliError CachedSnapshot) (range : String) : List (Line F) :=
  match parseRange range with
  | .error e => [.error e]
  | .ok (start, stop) =>
    if stop < start then [.error .endBeforeStart]
    else
      match snap with
      | .error e => [.error e]
      | .ok snap =>
        let slotMap := buildSlotMap snap.toEpochSnapshot
        let entries := (List.range' start (stop - start + 1)).filterMap slotMap.get?
        if entries = [] then [.noSlots start stop] else [.slotRange entries]

def exportCmd (serde : SerdeJson) (snap : Except CliError CachedSnapshot) : List (Line F) :=
  match snap with
  | .error e => [.error e]
  | .ok snap => [.json (serde.render snap)]

/-- One call of the program after another, over one directory. -/
def machine (f : Float64 F) (serde : SerdeJson) : EventMachine Dir Input (Line F) where
  step dir i :=
    match i.command with
    | .fetch force => fetch serde dir force i.answers
    | .summary epoch => (dir, summaryCmd f (loadSnapshot serde i.readDir dir epoch))
    | .atSlot slot epoch => (dir, atCmd (loadSnapshot serde i.readDir dir epoch) slot)
    | .slots range epoch => (dir, slotsCmd (loadSnapshot serde i.readDir dir epoch) range)
    | .exportJson epoch => (dir, exportCmd serde (loadSnapshot serde i.readDir dir epoch))

end Cli

end SolanaBench.LeaderMap
