import SolanaBench.FanOut.Matcher
import SolanaBench.FanOut.Preparer
import SolanaBench.Lib.ChannelScan

/-! The dispatcher: for each trigger it looks for the preparer's message, takes the
variants of the `(slot, tick)` out of the pool, and registers and sends them in an order
of its own. -/
namespace SolanaBench.FanOut

open Nonce
open Matcher (RegisterEvent)

structure TriggerEvent where
  slot : ℕ
  tick : ℕ
  cumulativeHashesInSlot : ℕ
  observedAt : Instant
  deriving DecidableEq, Repr

structure PreparedTrigger where
  slot : ℕ
  tick : ℕ
  nonceAccountId : NonceId
  deriving DecidableEq, Repr

structure SenderMeta where
  name : String
  endpointUrl : String
  protocol : String
  authTier : Option String
  tipLamports : ℕ
  priorityFeeMicrolamports : ℕ
  computeUnitLimit : ℕ
  deriving DecidableEq, Repr

structure SendCommand where
  tx : Transaction
  triggerId : TriggerId
  senderId : ℕ
  deriving DecidableEq, Repr

structure DispatcherConfig where
  senders : Finset ℕ
  senderMeta : ℕ → Option SenderMeta
  scheduleSeed : ℕ
  newTriggerId : ℕ → ℕ → NonceId → TriggerId
  /-- `SliceRandom::shuffle` with a generator seeded with the first argument. -/
  shuffle : ℕ → List ℕ → List ℕ
  shuffle_perm : ∀ seed indices, (shuffle seed indices).Perm indices

namespace Dispatcher

/-- A signature the observer is to look for, a registration with the variant it is
about, and a command for the send workers. -/
inductive Event
  | pendingSig (signature : Signature)
  | register (reg : RegisterEvent) (presigned : PreSignedTx)
  | command (cmd : SendCommand)
  deriving DecidableEq, Repr

abbrev Output := Effect BenchCounter Event

def isFor (t : TriggerEvent) (p : PreparedTrigger) : Bool :=
  decide (p.slot = t.slot ∧ p.tick = t.tick)

/-- At most ten receives. -/
def recvPrepared (t : TriggerEvent) (channel : List PreparedTrigger) :
    Option PreparedTrigger × List PreparedTrigger :=
  ChannelScan.scan (isFor t) 10 channel

def permSeed (cfg : DispatcherConfig) (t : TriggerEvent) : ℕ :=
  cfg.scheduleSeed ^^^ ((t.slot <<< 8) % 2 ^ 64) ^^^ t.tick

def registerEvent (cfg : DispatcherConfig) (t : TriggerEvent) (nonceAccountId : NonceId)
    (order senderId : ℕ) (info : SenderMeta) (presigned : PreSignedTx) : RegisterEvent where
  triggerId := cfg.newTriggerId t.slot t.tick nonceAccountId
  senderId := senderId
  senderName := info.name
  endpointUrl := info.endpointUrl
  protocol := info.protocol
  authTier := info.authTier
  tipAccountUsed := none
  tipLamports := info.tipLamports
  priorityFeeMicrolamports := info.priorityFeeMicrolamports
  computeUnitLimit := info.computeUnitLimit
  signature := presigned.tx.signatures.head?.getD 0
  txMessageHash := presigned.messageHash
  sendOrderInTrigger := order % 2 ^ 8
  triggerSlot := t.slot
  triggerTick := t.tick
  nonceAccountId := nonceAccountId
  nonceBlockhashUsed := 0
  preparedAt := presigned.preparedAt
  poolReadyAt := presigned.poolReadyAt
  triggerObservedAt := t.observedAt

/-- Neither the sender nor its metadata is missing. -/
def known (cfg : DispatcherConfig) (senderId : ℕ) : Bool :=
  decide (senderId ∈ cfg.senders) && (cfg.senderMeta senderId).isSome

def dispatchVariant (cfg : DispatcherConfig) (t : TriggerEvent) (nonceAccountId : NonceId)
    (order : ℕ) (v : ℕ × PreSignedTx) : List Output :=
  if v.1 ∈ cfg.senders then
    match cfg.senderMeta v.1 with
    | none => []
    | some info =>
      let reg := registerEvent cfg t nonceAccountId order v.1 info v.2
      [.send (.pendingSig reg.signature), .send (.register reg v.2),
        .send (.command ⟨v.2.tx, reg.triggerId, v.1⟩)]
  else []

/-- The rest of the loop body, with what the channel and the pool gave. -/
def dispatch (cfg : DispatcherConfig) (t : TriggerEvent) (prepared : Option PreparedTrigger)
    (variants : List (ℕ × PreSignedTx)) : List Output :=
  let nonceAccountId := (prepared.map PreparedTrigger.nonceAccountId).getD 0
  if variants = [] then [.fetchAdd .poolEmpty 1]
  else
    (cfg.shuffle (permSeed cfg t) (List.range variants.length)).zipIdx.flatMap fun i =>
      match variants[i.1]? with
      | none => []
      | some v => dispatchVariant cfg t nonceAccountId i.2 v

theorem register_mem_dispatchVariant {cfg : DispatcherConfig} {t : TriggerEvent}
    {nonceAccountId : NonceId} {order : ℕ} {v : ℕ × PreSignedTx} {reg : RegisterEvent}
    {pre : PreSignedTx} :
    .send (.register reg pre) ∈ dispatchVariant cfg t nonceAccountId order v ↔
      v.1 ∈ cfg.senders ∧ pre = v.2 ∧ ∃ info, cfg.senderMeta v.1 = some info ∧
        reg = registerEvent cfg t nonceAccountId order v.1 info v.2 := by
  unfold dispatchVariant
  split_ifs with hsender
  · cases hmeta : cfg.senderMeta v.1 with
    | none => simp
    | some info => simp [hsender, and_comm]
  · simp [hsender]

section

variable {cfg : DispatcherConfig} (t : TriggerEvent) (prepared : Option PreparedTrigger)
  {variants : List (ℕ × PreSignedTx)}

/-- A registration is made from a variant, a sender's metadata and the trigger. -/
theorem register_mem_dispatch {reg : RegisterEvent} {pre : PreSignedTx}
    (h : .send (.register reg pre) ∈ dispatch cfg t prepared variants) :
    ∃ v ∈ variants, v.1 ∈ cfg.senders ∧ pre = v.2 ∧ ∃ info, cfg.senderMeta v.1 = some info ∧
      ∃ order, reg = registerEvent cfg t ((prepared.map PreparedTrigger.nonceAccountId).getD 0)
        order v.1 info v.2 := by
  unfold dispatch at h
  dsimp only at h
  split_ifs at h
  · simp at h
  · obtain ⟨⟨idx, order⟩, -, ho⟩ := List.mem_flatMap.mp h
    cases hv : variants[idx]? with
    | none => simp [hv] at ho
    | some v =>
      rw [hv] at ho
      obtain ⟨hsender, hpre, info, hmeta, hreg⟩ := register_mem_dispatchVariant.mp ho
      exact ⟨v, List.mem_of_getElem? hv, hsender, hpre, info, hmeta, order, hreg⟩

theorem variant_of_register {reg : RegisterEvent} {pre : PreSignedTx}
    (h : .send (.register reg pre) ∈ dispatch cfg t prepared variants) :
    (∃ v ∈ variants, known cfg v.1 ∧ pre = v.2) ∧
      reg.nonceAccountId = (prepared.map PreparedTrigger.nonceAccountId).getD 0 := by
  obtain ⟨v, hv, hsender, rfl, info, hmeta, order, rfl⟩ := register_mem_dispatch t prepared h
  exact ⟨⟨v, hv, by simp [known, hsender, hmeta], rfl⟩, rfl⟩

/-- The shuffled indices reach every variant. -/
theorem exists_dispatchVariant {v : ℕ × PreSignedTx} (hv : v ∈ variants) :
    ∃ order, ∀ o ∈ dispatchVariant cfg t ((prepared.map PreparedTrigger.nonceAccountId).getD 0)
      order v, o ∈ dispatch cfg t prepared variants := by
  obtain ⟨idx, hidx, hget⟩ := List.mem_iff_getElem.mp hv
  have hperm := cfg.shuffle_perm (permSeed cfg t) (List.range variants.length)
  have hmem : idx ∈ cfg.shuffle (permSeed cfg t) (List.range variants.length) :=
    hperm.mem_iff.mpr (List.mem_range.mpr hidx)
  obtain ⟨order, horder⟩ := List.mem_iff_getElem?.mp hmem
  refine ⟨order, fun o ho => ?_⟩
  unfold dispatch
  dsimp only
  rw [if_neg (List.ne_nil_of_mem hv)]
  refine List.mem_flatMap.mpr ⟨(idx, order), List.mk_mem_zipIdx_iff_getElem?.mpr horder, ?_⟩
  rw [List.getElem?_eq_getElem hidx, hget]
  exact ho

theorem info_of_known {v : ℕ × PreSignedTx} (hknown : known cfg v.1) :
    v.1 ∈ cfg.senders ∧ ∃ info, cfg.senderMeta v.1 = some info := by
  simpa [known, Option.isSome_iff_exists] using hknown

theorem exists_register {v : ℕ × PreSignedTx} (hv : v ∈ variants) (hknown : known cfg v.1) :
    ∃ reg, .send (.register reg v.2) ∈ dispatch cfg t prepared variants := by
  obtain ⟨hsender, info, hmeta⟩ := info_of_known hknown
  obtain ⟨order, hdispatch⟩ := exists_dispatchVariant t prepared hv
  exact ⟨_, hdispatch _ (register_mem_dispatchVariant.mpr ⟨hsender, rfl, info, hmeta, rfl⟩)⟩

/-- Every variant of a known sender is sent. -/
theorem exists_command {v : ℕ × PreSignedTx} (hv : v ∈ variants) (hknown : known cfg v.1) :
    ∃ triggerId, .send (.command ⟨v.2.tx, triggerId, v.1⟩) ∈ dispatch cfg t prepared variants := by
  obtain ⟨hsender, info, hmeta⟩ := info_of_known hknown
  obtain ⟨order, hdispatch⟩ := exists_dispatchVariant t prepared hv
  refine ⟨cfg.newTriggerId t.slot t.tick ((prepared.map PreparedTrigger.nonceAccountId).getD 0),
    hdispatch _ ?_⟩
  simp [dispatchVariant, hsender, hmeta, registerEvent]

/-- The registrations of a trigger are one for each variant of a known sender, all with
the nonce id found. -/
theorem forall_register_dispatch {P : NonceId → PreSignedTx → Prop} :
    (∀ reg pre, .send (.register reg pre) ∈ dispatch cfg t prepared variants →
      P reg.nonceAccountId pre) ↔
    ∀ v ∈ variants, known cfg v.1 →
      P ((prepared.map PreparedTrigger.nonceAccountId).getD 0) v.2 := by
  constructor
  · intro h v hv hknown
    obtain ⟨reg, hreg⟩ := exists_register t prepared hv hknown
    exact (variant_of_register t prepared hreg).2 ▸ h reg v.2 hreg
  · intro h reg pre hreg
    obtain ⟨⟨v, hv, hknown, rfl⟩, hid⟩ := variant_of_register t prepared hreg
    exact hid ▸ h v hv hknown

end

end Dispatcher
end SolanaBench.FanOut
