import SolanaBench.TickTrigger.Phase3Run
import SolanaBench.TickTrigger.RecorderSources
import SolanaBench.TickTrigger.TriggerFiring

/-! What holds throughout a run of the bench, however its threads take their turns: no tick fires
twice, every variant was built for its trigger and its sender, and what the recorder is handed
goes back to a variant that was sent. -/
namespace SolanaBench.TickTrigger

/-! ## The engine -/

namespace TriggerEngine

open PohSupervisor Phase3

section

variable (sched : Schedule) (st : State) (e : OrderedEntry) (now : Instant)

theorem sigMatch_sent (sigs : List Signature) (pending : Finset Signature) :
    (sigMatch e now sigs pending).1 ⊆ pending ∧
      (Effect.sent (sigMatch e now sigs pending).2).filterMap trigger? = [] ∧
      ∀ m ∈ (Effect.sent (sigMatch e now sigs pending).2).filterMap matched?,
        m.signature ∈ pending ∧ m.signature ∈ sigs ∧ m.observedSlot = e.slot := by
  induction sigs generalizing pending with
  | nil => exact ⟨Finset.Subset.refl pending, rfl, List.forall_mem_nil _⟩
  | cons sig sigs ih =>
    unfold sigMatch
    split
    · next hin =>
      obtain ⟨hsub, htriggers, hmatches⟩ := ih (pending.erase sig)
      refine ⟨hsub.trans (Finset.erase_subset sig pending), htriggers, fun m hm => ?_⟩
      rcases List.mem_cons.mp hm with rfl | hm
      · exact ⟨hin, List.mem_cons_self, rfl⟩
      · obtain ⟨hpending, hsigs, hslot⟩ := hmatches m hm
        exact ⟨Finset.mem_of_mem_erase hpending, List.mem_cons_of_mem _ hsigs, hslot⟩
    · obtain ⟨hsub, htriggers, hmatches⟩ := ih pending
      refine ⟨hsub, htriggers, fun m hm => ?_⟩
      obtain ⟨hpending, hsigs, hslot⟩ := hmatches m hm
      exact ⟨hpending, List.mem_cons_of_mem _ hsigs, hslot⟩

theorem scheduleCheck_sent :
    (Effect.sent (scheduleCheck sched st e now).2).filterMap matched? = [] ∧
    (Effect.sent (scheduleCheck sched st e now).2).filterMap trigger? =
      (if (e.slot, e.tickIdxInSlot) ∈ sched ∧ 0 < e.tickIdxInSlot ∧
        (e.slot, e.tickIdxInSlot) ∉ st.fired then [triggerEvent e now] else []) ∧
    (scheduleCheck sched st e now).1.pendingSigs = st.pendingSigs := by
  obtain ⟨hs, hpos, hnew, heq⟩ | ⟨-, -, hf, heq⟩ | ⟨hno, heq⟩ := scheduleCheck_cases sched st e now
  · rw [heq, if_pos ⟨hs, hpos, hnew⟩]
    unfold fire
    cases e.tickUncertain <;> exact ⟨rfl, rfl, rfl⟩
  · rw [heq, if_neg fun h => h.2.2 hf]
    exact ⟨rfl, rfl, rfl⟩
  · rw [heq, if_neg fun h => hno ⟨h.1, h.2.1⟩]
    exact ⟨rfl, rfl, rfl⟩

/-- The trigger of an entry, if it has one. -/
def fires (sched : Schedule) (st : State) (e : OrderedEntry) (now : Instant) : List TriggerEvent :=
  if (e.slot, e.tickIdxInSlot) ∈ sched ∧ 0 < e.tickIdxInSlot ∧ (e.slot, e.tickIdxInSlot) ∉ st.fired
  then [triggerEvent e now] else []

theorem handleEntry_sent :
    (Effect.sent (handleEntry sched st e now).2).filterMap trigger? = fires sched st e now ∧
      (handleEntry sched st e now).1.pendingSigs ⊆ st.pendingSigs ∧
      ∀ m ∈ (Effect.sent (handleEntry sched st e now).2).filterMap matched?,
        m.signature ∈ st.pendingSigs ∧ m.signature ∈ e.observation.signatures ∧
          m.observedSlot = e.slot := by
  obtain ⟨hquiet, htrigger, hsame⟩ :=
    scheduleCheck_sent sched (recordHash st e.slot e.observation.entryHash) e now
  obtain ⟨hsub, hnone, hmatches⟩ := sigMatch_sent e now e.observation.signatures
    (scheduleCheck sched (recordHash st e.slot e.observation.entryHash) e now).1.pendingSigs
  unfold handleEntry
  dsimp only
  have hcompact : ∀ (t : State) (slot : ℕ), (compact t slot).pendingSigs = t.pendingSigs := by
    intro t slot
    unfold compact
    split <;> rfl
  have hpending : (scheduleCheck sched (recordHash st e.slot e.observation.entryHash) e
      now).1.pendingSigs = st.pendingSigs := hsame
  refine ⟨?_, ?_, ?_⟩
  · rw [List.cons_append, Effect.sent_fetchAdd, Effect.sent_append, List.filterMap_append, hnone,
      List.append_nil, htrigger]
    rfl
  · rw [hcompact, ← hpending]
    exact hsub
  · rw [List.cons_append, Effect.sent_fetchAdd, Effect.sent_append, List.filterMap_append, hquiet,
      List.nil_append, ← hpending]
    exact hmatches

end

end TriggerEngine

/-! ## The variants -/

namespace TxBuilder

def Transaction.memos (tx : Transaction) : List String :=
  tx.instructions.filterMap fun
    | .memo _ data => some data
    | _ => none

theorem memos_build (p : BuildParams) : (build p).memos = [memoPayload p.senderId p.triggerId] := by
  have hprice : (if p.txCfg.priorityFeeMicrolamports > 0 then
      [Instruction.setComputeUnitPrice p.txCfg.priorityFeeMicrolamports] else []).filterMap
        (fun | .memo _ data => some data | _ => none) = ([] : List String) := by
    split <;> rfl
  unfold Transaction.memos build
  simp only [List.filterMap_append, hprice]
  cases p.nonce <;> cases p.fundTipper <;> cases p.tipAccount
  all_goals first
    | rfl
    | (dsimp only; split <;> rfl)

end TxBuilder

namespace Phase3

open Dispatcher TxBuilder
open TriggerEngine (TriggerEvent MatchEvent TriggerId)
open Recorder (RegisterEvent SendEvent TriggerRecord)

/-- A transaction whose memo names one of the senders and the slot and tick. -/
structure BuiltFor (cfg : Config) (slot tick : ℕ) (v : PreSignedTx) : Prop where
  sender : v.senderId ∈ cfg.senders.map SenderConfig.id
  memo : v.tx.memos = [memoPayload v.senderId (TriggerId.fromSlotTick slot tick)]
  signed : v.signature = cfg.preparer.sign v.tx
  blockhash : v.tx.recentBlockhash = v.blockhash

/-- A fan-out has at most one variant of each sender. -/
structure FanOut (cfg : Config) (slot tick : ℕ) (txs : List PreSignedTx) : Prop where
  built : ∀ v ∈ txs, BuiltFor cfg slot tick v
  senders : (txs.map PreSignedTx.senderId).Nodup

section

variable {cfg : Config}

theorem map_filterMap_sublist {α β γ : Type*} {f : α → Option β} (g : β → γ) (k : α → γ)
    {l : List α} (h : ∀ x ∈ l, ∀ y, f x = some y → g y = k x) :
    ((l.filterMap f).map g).Sublist (l.map k) := by
  induction l with
  | nil => exact List.Sublist.slnil
  | cons x l ih =>
    obtain ⟨hhead, htail⟩ := List.forall_mem_cons.mp h
    rw [List.map_cons]
    cases hx : f x with
    | none =>
      rw [List.filterMap_cons_none hx]
      exact (ih htail).cons (k x)
    | some y =>
      rw [List.filterMap_cons_some hx, List.map_cons, hhead y hx]
      exact (ih htail).cons_cons (k x)

theorem builtFor_signVariant {tips : Tips} {entry : ScheduleEntry} {bh : Hash}
    {nonce : Option (Nonce.NonceId × Pubkey)} {preparedAt : Instant} {sc : SenderConfig}
    (hsc : sc ∈ cfg.senders) {v : PreSignedTx}
    (h : Preparer.signVariant cfg.preparer tips entry bh nonce preparedAt sc = some v) :
    v.senderId = sc.id ∧ BuiltFor cfg entry.slot entry.tick v := by
  have hid := List.mem_map_of_mem (f := SenderConfig.id) hsc
  unfold Preparer.signVariant at h
  dsimp only at h
  split at h
  · split at h
    · obtain rfl := Option.some.inj h
      exact ⟨rfl, hid, memos_build _, rfl, rfl⟩
    · cases h
  · obtain rfl := Option.some.inj h
    exact ⟨rfl, hid, memos_build _, rfl, rfl⟩

theorem fanOut_variants (hids : (cfg.senders.map SenderConfig.id).Nodup) (tips : Tips)
    (entry : ScheduleEntry) (bh : Hash) (nonce : Option (Nonce.NonceId × Pubkey))
    (preparedAt : Instant) : FanOut cfg entry.slot entry.tick
      (Preparer.variants cfg.preparer tips entry bh nonce preparedAt) := by
  have hperm := cfg.preparer.shuffle_perm (Preparer.permSeed cfg.preparer entry)
    (cfg.senders.filterMap (Preparer.signVariant cfg.preparer tips entry bh nonce preparedAt))
  refine ⟨fun v hv => ?_, ?_⟩
  · obtain ⟨sc, hsc, hv⟩ := List.mem_filterMap.mp (hperm.mem_iff.mp hv)
    exact (builtFor_signVariant hsc hv).2
  · refine (hperm.map _).nodup_iff.mpr (List.Nodup.sublist ?_ hids)
    exact map_filterMap_sublist PreSignedTx.senderId SenderConfig.id
      fun sc hsc v hv => (builtFor_signVariant hsc hv).1

theorem fanOut_fallback (hids : (cfg.senders.map SenderConfig.id).Nodup) (t : TriggerEvent)
    (ht : t.triggerId = TriggerId.fromSlotTick t.slot t.tick) (bh : Hash) (clock : ℕ → Instant)
    (rotators : Rotators) :
    FanOut cfg t.slot t.tick (fallback cfg.preparer t bh cfg.senders clock rotators).1 := by
  have hspec : ∀ (senders : List SenderConfig) (clock : ℕ → Instant) (rotators : Rotators),
      (∀ sc ∈ senders, sc ∈ cfg.senders) →
      (∀ v ∈ (fallback cfg.preparer t bh senders clock rotators).1, BuiltFor cfg t.slot t.tick v) ∧
        (fallback cfg.preparer t bh senders clock rotators).1.map PreSignedTx.senderId =
          senders.map SenderConfig.id := by
    intro senders
    induction senders with
    | nil => exact fun _ _ _ => ⟨List.forall_mem_nil _, rfl⟩
    | cons sc senders ih =>
      intro clock rotators hsub
      obtain ⟨hhead, htail⟩ := List.forall_mem_cons.mp hsub
      unfold fallback
      dsimp only
      obtain ⟨hbuilt, hmap⟩ := ih (fun n => clock (n + 1))
        (if sc.tipLamports > 0 then nextTip rotators sc.id else (none, rotators)).2 htail
      refine ⟨List.forall_mem_cons.mpr ⟨?_, hbuilt⟩, congrArg (sc.id :: ·) hmap⟩
      refine ⟨List.mem_map_of_mem hhead, ?_, rfl, rfl⟩
      rw [← ht]
      exact memos_build _
  obtain ⟨hbuilt, hmap⟩ := hspec cfg.senders clock rotators fun _ h => h
  exact ⟨hbuilt, hmap.symm ▸ hids⟩

end

/-! ## The events of a run -/

def taken? : Event → Option TriggerEvent
  | .taken t => some t
  | _ => none

def sent? : Event → Option (TriggerEvent × PreSignedTx)
  | .sent t v => some (t, v)
  | _ => none

def answered? : Event → Option SendEvent
  | .answered s => some s
  | _ => none

def unregistered? : Event → Option RegisterEvent
  | .unregistered reg => some reg
  | _ => none

def row? : Event → Option TriggerRecord
  | .row r => some r
  | _ => none

def takenIn (os : List Event) : List TriggerEvent := os.filterMap taken?
def sentIn (os : List Event) : List (TriggerEvent × PreSignedTx) := os.filterMap sent?
def answeredIn (os : List Event) : List SendEvent := os.filterMap answered?
def unregisteredIn (os : List Event) : List RegisterEvent := os.filterMap unregistered?
def rowsIn (os : List Event) : List TriggerRecord := os.filterMap row?

@[simp] theorem takenIn_append (os es : List Event) :
    takenIn (os ++ es) = takenIn os ++ takenIn es := List.filterMap_append
@[simp] theorem sentIn_append (os es : List Event) : sentIn (os ++ es) = sentIn os ++ sentIn es :=
  List.filterMap_append
@[simp] theorem answeredIn_append (os es : List Event) :
    answeredIn (os ++ es) = answeredIn os ++ answeredIn es := List.filterMap_append
@[simp] theorem unregisteredIn_append (os es : List Event) :
    unregisteredIn (os ++ es) = unregisteredIn os ++ unregisteredIn es := List.filterMap_append
@[simp] theorem rowsIn_append (os es : List Event) : rowsIn (os ++ es) = rowsIn os ++ rowsIn es :=
  List.filterMap_append

def slotTick (t : TriggerEvent) : ℕ × ℕ := (t.slot, t.tick)

/-- What tells the variants of a run apart. -/
def attempt (p : TriggerEvent × PreSignedTx) : (ℕ × ℕ) × ℕ := (slotTick p.1, p.2.senderId)

/-- The key of its registration. -/
def keyOf (p : TriggerEvent × PreSignedTx) : Recorder.Key := (p.1.triggerId, p.2.senderId)

def Flight.key (f : Flight) : Recorder.Key := (f.triggerId, f.senderId)

/-- The recorder after what it was handed, and what it wrote. -/
def recording (cfg : Config) (handled : List Recorder.Input) (exited : Bool) :
    Recorder.State × List Recorder.Output :=
  if exited then Recorder.runLoop cfg.recorder handled
  else (Recorder.machine cfg.recorder).run {} handled

/-! ## What holds throughout -/

structure Scheduled (st : State) : Prop where
  chunk : ∀ e ∈ st.chunk, e.tick ≤ 64
  accumulated : ∀ k ∈ st.accumulated, k.2 ≤ 64
  snapshot : st.snapshot ⊆ st.accumulated

/-- No tick has fired twice, and the `fired` set guards those that an entry can still reach. -/
structure Fired (os : List Event) (st : State) : Prop where
  once : ((takenIn os ++ st.triggerQueue).map slotTick).Nodup
  guarded : ∀ t ∈ takenIn os ++ st.triggerQueue, st.engine.lastCompactSlot ≤ t.slot + 256 →
    slotTick t ∈ st.engine.fired
  known : ∀ t ∈ takenIn os ++ st.triggerQueue, t.slot < 2 ^ 56 ∧ slotTick t ∈ st.accumulated ∧
    t.triggerId = TriggerId.fromSlotTick t.slot t.tick
  compacted : st.engine.lastCompactSlot < 2 ^ 56

/-- What is sent, and what the dispatcher has still to send. -/
structure Dispatched (cfg : Config) (os : List Event) (st : State) : Prop where
  pool : ∀ key txs, st.pool.inner.lookup key = some txs → FanOut cfg key.slot key.tick txs
  once : ((sentIn os ++ st.hand).map attempt).Nodup
  own : ∀ p ∈ sentIn os ++ st.hand, p.1 ∈ takenIn os ∧ BuiltFor cfg p.1.slot p.1.tick p.2

/-- The requests under way, and the signatures that are looked for. -/
structure Requested (os : List Event) (st : State) : Prop where
  flights : ((answeredIn os).map SendEvent.key ++ st.flights.map Flight.key).Perm
    ((sentIn os).map keyOf)
  pending : ∀ sig ∈ st.engine.pendingSigs, ∃ p ∈ sentIn os, p.2.signature = sig
  seen : ∀ pre m post, os = pre ++ .seen m :: post → ∃ p ∈ sentIn pre, p.2.signature = m.signature

/-- What the recorder was handed, and what waits for it. -/
structure Joined (cfg : Config) (os : List Event) (st : State) (handled : List Recorder.Input) :
    Prop where
  recorder : st.recorder = (recording cfg handled st.exited).1
  rows : rowsIn os = Recorder.records (recording cfg handled st.exited).2
  registered : (Recorder.registrations handled ++ st.registerQueue ++ unregisteredIn os).Perm
    ((sentIn os).map fun p => State.registerEvent cfg p.1 p.2)
  replies : ∀ s, .send s ∈ handled ∨ s ∈ st.sendQueue → .answered s ∈ os
  matches_ : ∀ m, (∃ cache now, .matched m cache now ∈ handled) ∨ m ∈ st.matchQueue →
    .seen m ∈ os

def entry? : Input → Option PohSupervisor.OrderedEntry
  | .ordered (.entry e) _ => some e
  | _ => none

/-- The entries of the ordered stream are at most 256 slots late. -/
def Timely (st : State) (i : Input) : Prop :=
  ∀ e ∈ entry? i, e.slot < 2 ^ 56 ∧ st.engine.lastCompactSlot ≤ e.slot + 256

instance (st : State) (i : Input) : Decidable (Timely st i) :=
  inferInstanceAs (Decidable (∀ e ∈ entry? i, _))

section

variable {cfg : Config} {os es : List Event} {st st' : State}

/-! ## The pump and the preparer -/

theorem Fired.frame (h : Fired os st) (htaken : takenIn es = [])
    (hqueue : st'.triggerQueue = st.triggerQueue) (hfired : st'.engine.fired = st.engine.fired)
    (hcompact : st'.engine.lastCompactSlot = st.engine.lastCompactSlot)
    (hacc : st.accumulated ⊆ st'.accumulated) : Fired (os ++ es) st' := by
  have hsame : takenIn (os ++ es) ++ st'.triggerQueue = takenIn os ++ st.triggerQueue := by
    rw [takenIn_append, htaken, List.append_nil, hqueue]
  refine ⟨hsame ▸ h.once, fun t ht hlate => ?_, fun t ht => ?_, hcompact ▸ h.compacted⟩
  · rw [hfired]
    exact h.guarded t (hsame ▸ ht) (hcompact ▸ hlate)
  · obtain ⟨hslot, hin, hid⟩ := h.known t (hsame ▸ ht)
    exact ⟨hslot, hacc hin, hid⟩

/-- A trigger for which there is no room is gone. -/
theorem Fired.sublist (h : Fired os st) {queue : List TriggerEvent}
    (hqueue : queue.Sublist st.triggerQueue) : Fired os { st with triggerQueue := queue } := by
  have hall : (takenIn os ++ queue).Sublist (takenIn os ++ st.triggerQueue) :=
    hqueue.append_left (takenIn os)
  exact ⟨h.once.sublist (hall.map slotTick), fun t ht => h.guarded t (hall.subset ht),
    fun t ht => h.known t (hall.subset ht), h.compacted⟩

theorem Dispatched.frame (h : Dispatched cfg os st) (hsent : sentIn es = [])
    (hpool : ∀ key txs, st'.pool.inner.lookup key = some txs → FanOut cfg key.slot key.tick txs)
    (hhand : st'.hand = st.hand) : Dispatched cfg (os ++ es) st' := by
  have hsame : sentIn (os ++ es) ++ st'.hand = sentIn os ++ st.hand := by
    rw [sentIn_append, hsent, List.append_nil, hhand]
  refine ⟨hpool, hsame ▸ h.once, fun p hp => ?_⟩
  obtain ⟨htaken, hbuilt⟩ := h.own p (hsame ▸ hp)
  exact ⟨takenIn_append os es ▸ List.mem_append_left _ htaken, hbuilt⟩

/-- What is seen was looked for. -/
theorem Requested.frame (h : Requested os st) (hsent : sentIn es = [])
    (hflights : ((answeredIn es).map SendEvent.key ++ st'.flights.map Flight.key).Perm
      (st.flights.map Flight.key))
    (hseen : ∀ m, .seen m ∈ es → m.signature ∈ st.engine.pendingSigs)
    (hpending : st'.engine.pendingSigs ⊆ st.engine.pendingSigs) : Requested (os ++ es) st' := by
  have hsame : sentIn (os ++ es) = sentIn os := by rw [sentIn_append, hsent, List.append_nil]
  refine ⟨?_, fun sig hsig => hsame ▸ h.pending sig (hpending hsig), fun pre m post hsplit => ?_⟩
  · rw [hsame, answeredIn_append, List.map_append, List.append_assoc]
    exact (hflights.append_left _).trans h.flights
  · rcases List.append_eq_append_iff.mp hsplit with ⟨as, rfl, hes⟩ | ⟨bs, hos, hes⟩
    · have hin : .seen m ∈ as ++ .seen m :: post := List.mem_append_right as List.mem_cons_self
      obtain ⟨p, hp, hsig⟩ := h.pending _ (hseen m (hes ▸ hin))
      exact ⟨p, sentIn_append os as ▸ List.mem_append_left _ hp, hsig⟩
    · cases bs with
      | nil =>
        have hin : .seen m ∈ es := by
          rw [← List.nil_append es, ← hes]
          exact List.mem_cons_self
        obtain ⟨p, hp, hsig⟩ := h.pending _ (hseen m hin)
        rw [hos, List.append_nil] at hp
        exact ⟨p, hp, hsig⟩
      | cons b bs =>
        obtain ⟨rfl, -⟩ := List.cons.inj hes
        exact h.seen pre m bs hos

theorem Joined.frame {handled : List Recorder.Input} (h : Joined cfg os st handled)
    (hsent : sentIn es = []) (hunregistered : unregisteredIn es = []) (hrows : rowsIn es = [])
    (hrecorder : st'.recorder = st.recorder) (hexited : st'.exited = st.exited) (hregisters : st'.registerQueue = st.registerQueue)
    (hreplies : ∀ s ∈ st'.sendQueue, s ∈ st.sendQueue ∨ .answered s ∈ es)
    (hmatches : ∀ m ∈ st'.matchQueue, m ∈ st.matchQueue ∨ .seen m ∈ es) :
    Joined cfg (os ++ es) st' handled where
  recorder := by rw [hrecorder, hexited, h.recorder]
  rows := by rw [rowsIn_append, hrows, List.append_nil, hexited, h.rows]
  registered := by
    rw [hregisters, sentIn_append, hsent, List.append_nil, unregisteredIn_append, hunregistered,
      List.append_nil]
    exact h.registered
  replies s hs := by
    rcases hs with hs | hs
    · exact List.mem_append_left _ (h.replies s (Or.inl hs))
    · rcases hreplies s hs with hs | hs
      · exact List.mem_append_left _ (h.replies s (Or.inr hs))
      · exact List.mem_append_right _ hs
  matches_ m hm := by
    rcases hm with hm | hm
    · exact List.mem_append_left _ (h.matches_ m (Or.inl hm))
    · rcases hmatches m hm with hm | hm
      · exact List.mem_append_left _ (h.matches_ m (Or.inr hm))
      · exact List.mem_append_right _ hm

/-- Everything that holds throughout a run. -/
structure Kept (cfg : Config) (os : List Event) (st : State) : Prop where
  scheduled : Scheduled st
  fired : Fired os st
  dispatched : Dispatched cfg os st
  requested : Requested os st
  joined : ∃ handled, Joined cfg os st handled

/-- The pump and the preparer touch what is scheduled and what is pooled. -/
theorem Kept.prepared (h : Kept cfg os st) (hsched : Scheduled st')
    (hpool : ∀ key txs, st'.pool.inner.lookup key = some txs → FanOut cfg key.slot key.tick txs)
    (hacc : st.accumulated ⊆ st'.accumulated)
    (hrest : st' = { st with
      schedule := st'.schedule
      chunk := st'.chunk
      accumulated := st'.accumulated
      snapshot := st'.snapshot
      scheduleQueue := st'.scheduleQueue
      pending := st'.pending
      pool := st'.pool }) : Kept cfg (os ++ []) st' := by
  obtain ⟨handled, hjoined⟩ := h.joined
  rw [hrest] at hsched ⊢
  refine ⟨hsched, h.fired.frame rfl rfl rfl rfl hacc, h.dispatched.frame rfl hpool rfl,
    h.requested.frame rfl (List.Perm.refl _) nofun (Finset.Subset.refl _), handled,
    hjoined.frame rfl rfl rfl rfl rfl rfl (fun s hs => Or.inl hs) fun m hm => Or.inl hm⟩

theorem tick_of_fill {s : ScheduleGen.Schedule} {offsets : List ℕ}
    {draws rest : List ScheduleGen.Draw} {entries : List ScheduleEntry} (h : s.fill offsets draws = some (entries, rest)) :
    ∀ e ∈ entries, e.tick ≤ 64 := by
  induction offsets generalizing draws entries with
  | nil =>
    obtain ⟨rfl, -⟩ := Prod.mk.inj (Option.some.inj h)
    exact List.forall_mem_nil _
  | cons offset offsets ih =>
    unfold ScheduleGen.Schedule.fill at h
    split at h
    · cases h
    · obtain ⟨⟨out, rest'⟩, hr, heq⟩ := Option.map_eq_some_iff.mp h
      obtain ⟨rfl, rfl⟩ := Prod.mk.inj heq
      refine List.forall_mem_append.mpr ⟨fun e he => ?_, ih hr⟩
      obtain ⟨tick, -, rfl⟩ := List.mem_map.mp he
      exact tick.2.2

theorem Kept.nextChunk (h : Kept cfg os st) (draws : List ScheduleGen.Draw) :
    Kept cfg (os ++ []) (st.nextChunk draws) := by
  have hs := h.scheduled
  unfold State.nextChunk
  split
  · next r _ hr =>
    obtain ⟨filled, hfilled, rfl⟩ := Option.map_eq_some_iff.mp hr
    exact h.prepared ⟨tick_of_fill hfilled, hs.accumulated, hs.snapshot⟩ h.dispatched.pool
      (Finset.Subset.refl _) rfl
  · exact h.prepared hs h.dispatched.pool (Finset.Subset.refl _) rfl

theorem Kept.offer (h : Kept cfg os st) : Kept cfg (os ++ []) (st.offer cfg) := by
  have hs := h.scheduled
  unfold State.offer
  split
  · exact h.prepared hs h.dispatched.pool (Finset.Subset.refl _) rfl
  · next e chunk hchunk =>
    obtain ⟨hhead, htail⟩ := List.forall_mem_cons.mp (hchunk ▸ hs.chunk)
    refine h.prepared ⟨htail, fun k hk => ?_, hs.snapshot.trans (Finset.subset_insert _ _)⟩
      h.dispatched.pool (Finset.subset_insert _ _) rfl
    rcases Finset.mem_insert.mp hk with rfl | hk
    · exact hhead
    · exact hs.accumulated k hk

theorem Kept.publish (h : Kept cfg os st) : Kept cfg (os ++ []) st.publish := by
  have hs := h.scheduled
  unfold State.publish
  split
  · exact h.prepared ⟨hs.chunk, hs.accumulated, Finset.Subset.refl _⟩ h.dispatched.pool
      (Finset.Subset.refl _) rfl
  · exact h.prepared hs h.dispatched.pool (Finset.Subset.refl _) rfl

theorem Kept.prepare (h : Kept cfg os st) (hids : (cfg.senders.map SenderConfig.id).Nodup)
    (currentSlot : ℕ) (ready : Option (Nonce.NonceId × Pubkey × Hash)) (cached : Option Hash)
    (tips : Tips) (now : Instant) :
    Kept cfg (os ++ []) (st.prepare cfg currentSlot ready cached tips now) := by
  have hnext : ∀ entry t, st.nextEntry = some (entry, t) →
      t = { st with scheduleQueue := t.scheduleQueue, pending := t.pending } := by
    intro entry t ht
    unfold State.nextEntry at ht
    split at ht
    · obtain ⟨-, rfl⟩ := Prod.mk.inj (Option.some.inj ht)
      rfl
    · obtain ⟨-, rfl⟩ := Prod.mk.inj (Option.some.inj ht)
      rfl
    · cases ht
  unfold State.prepare
  split
  · exact h.prepared h.scheduled h.dispatched.pool (Finset.Subset.refl _) rfl
  · next entry t ht =>
    rw [hnext entry t ht]
    have hs := h.scheduled
    split
    · exact h.prepared ⟨hs.chunk, hs.accumulated, hs.snapshot⟩ h.dispatched.pool
        (Finset.Subset.refl _) rfl
    · dsimp only
      split
      · exact h.prepared ⟨hs.chunk, hs.accumulated, hs.snapshot⟩ h.dispatched.pool
          (Finset.Subset.refl _) rfl
      · next bh nonce _ =>
        refine h.prepared ⟨hs.chunk, hs.accumulated, hs.snapshot⟩ (fun key txs hk => ?_)
          (Finset.Subset.refl _) rfl
        rcases eq_or_ne key entry with rfl | hne
        · obtain rfl := Option.some.inj ((AList.lookup_insert _).symm.trans hk)
          exact fanOut_variants hids tips key bh nonce now
        · exact h.dispatched.pool key txs ((AList.lookup_insert_ne hne).symm.trans hk)

theorem Kept.evict (h : Kept cfg os st) (currentSlot : ℕ) :
    Kept cfg (os ++ []) { st with pool := Preparer.maybeEvict st.pool currentSlot } := by
  have hs := h.scheduled
  refine h.prepared ⟨hs.chunk, hs.accumulated, hs.snapshot⟩ (fun key txs hk => ?_)
    (Finset.Subset.refl _) rfl
  unfold Preparer.maybeEvict at hk
  split at hk
  · exact h.dispatched.pool key txs hk
  · have hmem := AList.mem_lookup_iff.mp hk
    exact h.dispatched.pool key txs (AList.mem_lookup_iff.mpr (List.mem_of_mem_filter hmem))

/-! ## The engine and the dispatcher -/

open TriggerEngine (fires handleEntry_fired handleEntry_lastCompactSlot handleEntry_sent) in
/-- An entry that is not too late fires a tick that has not fired before. -/
theorem Fired.entry (h : Fired os st) (hs : Scheduled st) {e : PohSupervisor.OrderedEntry}
    {now : Instant} (htimely : Timely st (.ordered (.entry e) now)) (hes : takenIn es = []) :
    Fired (os ++ es) { st with
      engine := (TriggerEngine.handleEntry st.snapshot st.engine e now).1
      triggerQueue := st.triggerQueue ++ fires st.snapshot st.engine e now } := by
  obtain ⟨hslot, hlate⟩ := htimely e rfl
  have hlist : takenIn (os ++ es) ++ (st.triggerQueue ++ fires st.snapshot st.engine e now) =
      (takenIn os ++ st.triggerQueue) ++ fires st.snapshot st.engine e now := by
    rw [takenIn_append, hes, List.append_nil, List.append_assoc]
  have hwrap : TriggerEngine.compacts st.engine.lastCompactSlot e.slot = true →
      st.engine.lastCompactSlot + 256 < e.slot := by
    intro hc
    have hcompact := h.compacted
    have hmod : (st.engine.lastCompactSlot + 256) % 2 ^ 64 = st.engine.lastCompactSlot + 256 :=
      Nat.mod_eq_of_lt (by omega)
    have hgt := of_decide_eq_true hc
    omega
  have hnew : ∀ t ∈ fires st.snapshot st.engine e now, t = TriggerEngine.triggerEvent e now ∧
      (e.slot, e.tickIdxInSlot) ∈ st.snapshot ∧ 0 < e.tickIdxInSlot ∧
        (e.slot, e.tickIdxInSlot) ∉ st.engine.fired := by
    intro t ht
    unfold fires at ht
    split at ht
    · next hfires => exact ⟨List.mem_singleton.mp ht, hfires⟩
    · cases ht
  refine ⟨?_, fun t ht hreach => ?_, fun t ht => ?_, ?_⟩
  · rw [hlist, List.map_append]
    refine List.nodup_append.mpr ⟨h.once, ?_, ?_⟩
    · unfold fires
      split
      · exact List.nodup_singleton _
      · exact List.nodup_nil
    · intro k hk k' hk' heq
      obtain ⟨t, ht, rfl⟩ := List.mem_map.mp hk
      obtain ⟨t', ht', rfl⟩ := List.mem_map.mp hk'
      obtain ⟨rfl, -, -, hfresh⟩ := hnew t' ht'
      have hsame : t.slot = e.slot := congrArg Prod.fst heq
      have hin := h.guarded t ht (hsame ▸ hlate)
      rw [heq] at hin
      exact hfresh hin
  · rw [handleEntry_lastCompactSlot] at hreach
    refine (handleEntry_fired e now).mpr ⟨?_, ?_⟩
    · rcases List.mem_append.mp (hlist ▸ ht) with ht | ht
      · refine Or.inl (h.guarded t ht ?_)
        split at hreach
        · next hc =>
          have hlt := hwrap hc
          omega
        · exact hreach
      · obtain ⟨rfl, hin, hpos, -⟩ := hnew t ht
        exact Or.inr ⟨rfl, hin, hpos⟩
    · rintro ⟨hc, hlt⟩
      rw [if_pos hc] at hreach
      have hslots : (slotTick t).1 = t.slot := rfl
      omega
  · rcases List.mem_append.mp (hlist ▸ ht) with ht | ht
    · exact h.known t ht
    · obtain ⟨rfl, hin, -, -⟩ := hnew t ht
      exact ⟨hslot, hs.snapshot hin, rfl⟩
  · rw [handleEntry_lastCompactSlot]
    split
    · exact hslot
    · exact h.compacted

/-- A step of the engine that fires `ts` and sees `ms`. -/
theorem Kept.engaged (h : Kept cfg os st) {t : TriggerEngine.State} {ts : List TriggerEvent}
    {ms : List MatchEvent}
    (hfired : Fired (os ++ ms.map .seen) { st with
      engine := t
      triggerQueue := st.triggerQueue ++ ts })
    (hpending : t.pendingSigs ⊆ st.engine.pendingSigs)
    (hseen : ∀ m ∈ ms, m.signature ∈ st.engine.pendingSigs) :
    Kept cfg (os ++ ms.map .seen) { st with
      engine := t
      triggerQueue := ((BoundedChannel.machine queueCapacity true).run st.triggerQueue ts).1
      matchQueue := (st.toRecorder st.matchQueue ms).1 } := by
  obtain ⟨handled, hjoined⟩ := h.joined
  have hs := h.scheduled
  have hqueued := hfired.sublist (BoundedChannel.run_sublist queueCapacity true st.triggerQueue ts)
  have hquiet : sentIn (ms.map .seen) = [] ∧ answeredIn (ms.map .seen) = [] ∧
      unregisteredIn (ms.map .seen) = [] ∧ rowsIn (ms.map .seen) = [] := by
    clear hfired hseen hqueued
    induction ms with
    | nil => exact ⟨rfl, rfl, rfl, rfl⟩
    | cons m ms ih => exact ih
  obtain ⟨hsent, hanswered, hunregistered, hrows⟩ := hquiet
  have hflights : ((answeredIn (ms.map .seen)).map SendEvent.key ++ st.flights.map Flight.key).Perm
      (st.flights.map Flight.key) := by
    rw [hanswered]
    exact List.Perm.refl _
  have hmem : ∀ m, Event.seen m ∈ ms.map .seen ↔ m ∈ ms := by
    intro m
    simp
  refine ⟨⟨hs.chunk, hs.accumulated, hs.snapshot⟩,
    ⟨hqueued.once, hqueued.guarded, hqueued.known, hqueued.compacted⟩,
    h.dispatched.frame hsent h.dispatched.pool rfl,
    h.requested.frame hsent hflights (fun m hm => hseen m ((hmem m).mp hm)) hpending, handled,
    hjoined.frame hsent hunregistered hrows rfl rfl rfl (fun s hs => Or.inl hs) fun m hm => ?_⟩
  exact (BoundedChannel.mem_of_mem_run hm).imp id (hmem m).mpr

theorem Kept.ordered (h : Kept cfg os st) (event : PohSupervisor.OrderedEvent) (now : Instant)
    (htimely : Timely st (.ordered event now)) :
    Kept cfg (os ++ (st.ordered event now).2) (st.ordered event now).1 := by
  have hfired := h.fired
  have hidle : ∀ t : TriggerEngine.State, t.fired = st.engine.fired →
      t.lastCompactSlot = st.engine.lastCompactSlot → Fired (os ++ ([] : List MatchEvent).map .seen)
        { st with
          engine := t
          triggerQueue := st.triggerQueue ++ [] } := fun t hset hlast =>
    hfired.frame rfl (List.append_nil _) hset hlast (Finset.Subset.refl _)
  unfold State.ordered
  cases event with
  | entry e =>
    obtain ⟨htriggers, hpending, hmatches⟩ :=
      TriggerEngine.handleEntry_sent st.snapshot st.engine e now
    have hquiet : ∀ ms : List MatchEvent, takenIn (ms.map .seen) = [] := by
      intro ms
      induction ms with
      | nil => rfl
      | cons m ms ih => exact ih
    refine h.engaged ?_ hpending fun m hm => (hmatches m hm).1
    have hevent : TriggerEngine.handleEvent st.snapshot st.engine (.entry e) now =
        TriggerEngine.handleEntry st.snapshot st.engine e now := rfl
    rw [hevent, htriggers]
    exact hfired.entry h.scheduled htimely (hquiet _)
  | missing m => exact h.engaged (hidle _ rfl rfl) (Finset.Subset.refl _) (List.forall_mem_nil _)
  | slotComplete c =>
    exact h.engaged (hidle _ rfl rfl) (Finset.Subset.refl _) (List.forall_mem_nil _)
  | slotIncomplete c =>
    exact h.engaged (hidle _ rfl rfl) (Finset.Subset.refl _) (List.forall_mem_nil _)

theorem fanOut_variantsOf (hids : (cfg.senders.map SenderConfig.id).Nodup) {pool : TxPool}
    (hpool : ∀ key txs, pool.inner.lookup key = some txs → FanOut cfg key.slot key.tick txs)
    (t : TriggerEvent) (ht : t.triggerId = TriggerId.fromSlotTick t.slot t.tick)
    (cached : Option Hash) (clock : ℕ → Instant) (rotators : Rotators) :
    let r := variantsOf cfg.preparer cfg.recorder.nonceMode cached t clock pool rotators
    (∀ txs, r.1 = some txs → FanOut cfg t.slot t.tick txs) ∧
      ∀ key txs, r.2.1.inner.lookup key = some txs → FanOut cfg key.slot key.tick txs := by
  have herased : ∀ key txs, (pool.inner.erase ⟨t.slot, t.tick⟩).lookup key = some txs →
      FanOut cfg key.slot key.tick txs := by
    intro key txs hk
    rcases eq_or_ne key ⟨t.slot, t.tick⟩ with rfl | hne
    · rw [AList.lookup_erase] at hk
      cases hk
    · exact hpool key txs ((AList.lookup_erase_ne hne).symm.trans hk)
  unfold variantsOf TxPool.take
  dsimp only
  cases hin : pool.inner.lookup ⟨t.slot, t.tick⟩ with
  | some txs =>
    refine ⟨fun txs' htxs => ?_, herased⟩
    obtain rfl := Option.some.inj htxs
    exact hpool _ txs hin
  | none =>
    dsimp only
    split
    · next _ bh _ =>
      refine ⟨fun txs' htxs => ?_, herased⟩
      obtain rfl := Option.some.inj htxs
      exact fanOut_fallback hids t ht bh clock rotators
    · exact ⟨nofun, herased⟩

/-- Registrations that are refused, beside what the others do. -/
theorem quiet_unregistered (regs : List RegisterEvent) : takenIn (regs.map .unregistered) = [] ∧
    sentIn (regs.map .unregistered) = [] ∧ answeredIn (regs.map .unregistered) = [] ∧
      unregisteredIn (regs.map .unregistered) = regs ∧ rowsIn (regs.map .unregistered) = [] ∧
        ∀ m, Event.seen m ∉ regs.map .unregistered := by
  induction regs with
  | nil => exact ⟨rfl, rfl, rfl, rfl, rfl, nofun⟩
  | cons reg regs ih =>
    obtain ⟨htaken, hsent, hanswered, hunregistered, hrows, hseen⟩ := ih
    exact ⟨htaken, hsent, hanswered, congrArg (reg :: ·) hunregistered, hrows,
      fun m hm => (List.mem_cons.mp hm).elim nofun (hseen m)⟩

/-- The variants of the next trigger, which has not been taken before. -/
theorem Kept.takeTrigger (h : Kept cfg os st) (hids : (cfg.senders.map SenderConfig.id).Nodup)
    (cached : Option Hash) (clock : ℕ → Instant) :
    Kept cfg (os ++ (st.takeTrigger cfg cached clock).2) (st.takeTrigger cfg cached clock).1 := by
  obtain ⟨handled, hjoined⟩ := h.joined
  have hs := h.scheduled
  have hd := h.dispatched
  have hidle : Kept cfg (os ++ []) st := by
    rw [List.append_nil]
    exact h
  unfold State.takeTrigger
  split
  · next t rest hhand hqueue =>
    obtain ⟨-, -, hid⟩ := h.fired.known t (by rw [hqueue]; simp)
    -- the trigger moves from the queue to those that are taken
    have hfired : ∀ es, takenIn es = [t] → Fired (os ++ es) { st with triggerQueue := rest } := by
      intro es hes
      have hlist : takenIn (os ++ es) ++ rest = takenIn os ++ st.triggerQueue := by
        rw [takenIn_append, hes, hqueue, List.append_assoc]
        rfl
      exact ⟨hlist ▸ h.fired.once, fun t ht => h.fired.guarded t (hlist ▸ ht),
        fun t ht => h.fired.known t (hlist ▸ ht), h.fired.compacted⟩
    have hfresh : slotTick t ∉ (takenIn os).map slotTick := by
      have honce := h.fired.once
      rw [hqueue, List.map_append, List.map_cons] at honce
      exact fun hin => List.disjoint_of_nodup_append honce hin List.mem_cons_self
    obtain ⟨hfan, hpool⟩ := fanOut_variantsOf hids hd.pool t hid cached clock st.rotators
    have honce := hd.once
    have hown := hd.own
    rw [hhand, List.append_nil] at honce hown
    dsimp only
    split
    · have hf := hfired [.taken t, .skipped t] rfl
      exact ⟨⟨hs.chunk, hs.accumulated, hs.snapshot⟩,
        ⟨hf.once, hf.guarded, hf.known, hf.compacted⟩, hd.frame rfl hpool rfl,
        h.requested.frame rfl (List.Perm.refl _) (by simp) (Finset.Subset.refl _), handled,
        hjoined.frame rfl rfl rfl rfl rfl rfl (fun s hs => Or.inl hs) fun m hm => Or.inl hm⟩
    · next txs htxs =>
      obtain ⟨hbuilt, hsenders⟩ := hfan txs htxs
      have hf := hfired [.taken t] rfl
      have hsent : sentIn (os ++ [.taken t]) = sentIn os := by
        rw [sentIn_append]
        exact List.append_nil _
      refine ⟨⟨hs.chunk, hs.accumulated, hs.snapshot⟩,
        ⟨hf.once, hf.guarded, hf.known, hf.compacted⟩, ⟨hpool, ?_, ?_⟩,
        h.requested.frame rfl (List.Perm.refl _) (by simp) (Finset.Subset.refl _), handled,
        hjoined.frame rfl rfl rfl rfl rfl rfl (fun s hs => Or.inl hs) fun m hm => Or.inl hm⟩
      · rw [hsent, List.map_append, List.map_map]
        refine List.nodup_append.mpr ⟨honce, ?_, ?_⟩
        · have hsame : (txs.map (attempt ∘ fun v => (t, v))) =
              (txs.map PreSignedTx.senderId).map (Prod.mk (slotTick t)) := by
            rw [List.map_map]
            rfl
          rw [hsame]
          exact hsenders.map fun a b hab => (Prod.mk.inj hab).2
        · intro k hk k' hk' heq
          obtain ⟨p, hp, rfl⟩ := List.mem_map.mp hk
          obtain ⟨v, -, rfl⟩ := List.mem_map.mp hk'
          have hslots : slotTick p.1 = slotTick t := (Prod.mk.inj heq).1
          exact hfresh (hslots ▸ List.mem_map_of_mem (hown p hp).1)
      · rw [hsent]
        intro p hp
        rcases List.mem_append.mp hp with hp | hp
        · exact ⟨takenIn_append os _ ▸ List.mem_append_left _ (hown p hp).1, (hown p hp).2⟩
        · obtain ⟨v, hv, rfl⟩ := List.mem_map.mp hp
          exact ⟨takenIn_append os _ ▸ List.mem_append_right _ List.mem_cons_self, hbuilt v hv⟩
  · exact hidle

theorem Kept.sendVariant (h : Kept cfg os st) :
    Kept cfg (os ++ (st.sendVariant cfg).2) (st.sendVariant cfg).1 := by
  obtain ⟨handled, hjoined⟩ := h.joined
  have hs := h.scheduled
  have hd := h.dispatched
  unfold State.sendVariant
  split
  · rw [List.append_nil]
    exact h
  · next t v hand hhand =>
    obtain ⟨sc, hsc, hid⟩ := List.mem_map.mp (hd.own (t, v) (by rw [hhand]; simp)).2.sender
    have hknown : (cfg.senders.any fun sc => sc.id = v.senderId) = true :=
      List.any_eq_true.mpr ⟨sc, hsc, decide_eq_true hid⟩
    have hoffer := BoundedChannel.perm_run queueCapacity (!st.exited) st.registerQueue
      [State.registerEvent cfg t v]
    dsimp only
    rw [if_pos hknown]
    unfold State.toRecorder
    dsimp only
    generalize (BoundedChannel.machine queueCapacity (!st.exited)).run st.registerQueue
      [State.registerEvent cfg t v] = r at hoffer ⊢
    obtain ⟨htakes, hsends, hanswers, hrefused, hwrites, hsees⟩ := quiet_unregistered r.2
    have hsent : sentIn (os ++ .sent t v :: r.2.map .unregistered) = sentIn os ++ [(t, v)] := by
      rw [List.append_cons, sentIn_append, hsends, List.append_nil, sentIn_append]
      rfl
    have hunregistered : unregisteredIn (os ++ .sent t v :: r.2.map .unregistered) =
        unregisteredIn os ++ r.2 := by
      rw [List.append_cons, unregisteredIn_append, hrefused, unregisteredIn_append]
      exact congrArg (· ++ r.2) (List.append_nil _)
    have hmove : sentIn (os ++ .sent t v :: r.2.map .unregistered) ++ hand =
        sentIn os ++ st.hand := by
      rw [hsent, hhand, List.append_assoc]
      rfl
    refine ⟨⟨hs.chunk, hs.accumulated, hs.snapshot⟩,
      h.fired.frame htakes rfl rfl rfl (Finset.Subset.refl _), ⟨hd.pool, ?_, fun p hp => ?_⟩,
      ⟨?_, fun sig hsig => ?_, fun pre m post hsplit => ?_⟩, handled,
      ⟨hjoined.recorder, ?_, ?_, fun s hs => List.mem_append_left _ (hjoined.replies s hs),
        fun m hm => List.mem_append_left _ (hjoined.matches_ m hm)⟩⟩
    · exact hmove ▸ hd.once
    · obtain ⟨htaken, hbuilt⟩ := hd.own p (hmove ▸ hp)
      exact ⟨takenIn_append os _ ▸ List.mem_append_left _ htaken, hbuilt⟩
    · have hanswered : answeredIn (os ++ .sent t v :: r.2.map .unregistered) = answeredIn os := by
        rw [List.append_cons, answeredIn_append, hanswers, List.append_nil, answeredIn_append]
        exact List.append_nil _
      rw [hanswered, hsent, List.map_append, List.map_append, ← List.append_assoc]
      exact h.requested.flights.append (List.Perm.refl _)
    · rw [hsent]
      rcases Finset.mem_insert.mp hsig with rfl | hsig
      · exact ⟨(t, v), List.mem_append_right _ List.mem_cons_self, rfl⟩
      · obtain ⟨p, hp, heq⟩ := h.requested.pending sig hsig
        exact ⟨p, List.mem_append_left _ hp, heq⟩
    · have hnew : Event.seen m ∉ Event.sent t v :: r.2.map .unregistered := fun hin =>
        (List.mem_cons.mp hin).elim nofun (hsees m)
      rcases List.append_eq_append_iff.mp hsplit with ⟨as, rfl, hes⟩ | ⟨bs, hos, hes⟩
      · exact absurd (hes ▸ List.mem_append_right as List.mem_cons_self) hnew
      · cases bs with
        | nil =>
          rw [List.nil_append] at hes
          exact absurd (hes ▸ List.mem_cons_self) hnew
        | cons b bs =>
          obtain ⟨rfl, -⟩ := List.cons.inj hes
          exact h.requested.seen pre m bs hos
    · rw [List.append_cons, rowsIn_append, hwrites, List.append_nil, rowsIn_append]
      exact (List.append_nil _).trans hjoined.rows
    · rw [hsent, hunregistered, List.map_append]
      refine List.Perm.trans ?_ (hjoined.registered.append_right _)
      refine List.perm_iff_count.mpr fun reg => ?_
      have hreg := List.perm_iff_count.mp hoffer reg
      simp only [List.count_append, List.map_cons, List.map_nil] at hreg ⊢
      omega

theorem Kept.answer (h : Kept cfg os st) (n : ℕ) (outcome : Recorder.SendOutcome) :
    Kept cfg (os ++ (st.answer n outcome).2) (st.answer n outcome).1 := by
  obtain ⟨handled, hjoined⟩ := h.joined
  have hs := h.scheduled
  unfold State.answer
  split
  · rw [List.append_nil]
    exact h
  · next f hf =>
    obtain ⟨hn, rfl⟩ := List.getElem?_eq_some_iff.mp hf
    have hflights := (List.getElem_cons_eraseIdx_perm hn).map Flight.key
    refine ⟨⟨hs.chunk, hs.accumulated, hs.snapshot⟩,
      h.fired.frame rfl rfl rfl rfl (Finset.Subset.refl _),
      h.dispatched.frame rfl h.dispatched.pool rfl,
      h.requested.frame rfl hflights (by simp) (Finset.Subset.refl _),
      handled, hjoined.frame rfl rfl rfl rfl rfl rfl (fun s hs => ?_) fun m hm => Or.inl hm⟩
    exact (BoundedChannel.mem_of_mem_run hs).imp id fun hs => by
      rw [List.mem_singleton.mp hs]
      exact List.mem_cons_self

/-! ## The recorder -/

theorem rowsIn_ofRecorder (rs : List Recorder.Output) :
    rowsIn ((Effect.sent rs).map ofRecorder) = Recorder.records rs := by
  unfold rowsIn Recorder.records
  rw [List.filterMap_map]
  exact List.filterMap_congr fun e _ => by cases e <;> rfl

theorem quiet_ofRecorder (es : List Recorder.Event) : takenIn (es.map ofRecorder) = [] ∧
    sentIn (es.map ofRecorder) = [] ∧ answeredIn (es.map ofRecorder) = [] ∧
      unregisteredIn (es.map ofRecorder) = [] ∧ ∀ m, .seen m ∉ es.map ofRecorder := by
  induction es with
  | nil => exact ⟨rfl, rfl, rfl, rfl, nofun⟩
  | cons e es ih =>
    obtain ⟨htaken, hsent, hanswered, hunregistered, hseen⟩ := ih
    cases e with
    | record r =>
      exact ⟨htaken, hsent, hanswered, hunregistered,
        fun m hm => (List.mem_cons.mp hm).elim nofun (hseen m)⟩
    | nonce a =>
      exact ⟨htaken, hsent, hanswered, hunregistered,
        fun m hm => (List.mem_cons.mp hm).elim nofun (hseen m)⟩

/-- What the recorder does is none of the others' business. -/
theorem Kept.written (h : Kept cfg os st) (handled : List Recorder.Input)
    (hrest : st' = { st with
      registerQueue := st'.registerQueue
      sendQueue := st'.sendQueue
      matchQueue := st'.matchQueue
      recorder := st'.recorder
      exited := st'.exited })
    (hes : takenIn es = [] ∧ sentIn es = [] ∧ answeredIn es = [] ∧ ∀ m, .seen m ∉ es)
    (hjoined : Joined cfg (os ++ es) st' handled) : Kept cfg (os ++ es) st' := by
  have hs := h.scheduled
  obtain ⟨htaken, hsent, hanswered, hseen⟩ := hes
  rw [hrest] at hjoined ⊢
  refine ⟨⟨hs.chunk, hs.accumulated, hs.snapshot⟩,
    h.fired.frame htaken rfl rfl rfl (Finset.Subset.refl _),
    h.dispatched.frame hsent h.dispatched.pool rfl,
    h.requested.frame hsent ?_ (fun m hm => absurd hm (hseen m)) (Finset.Subset.refl _), handled,
    hjoined⟩
  rw [hanswered]
  exact List.Perm.refl _

/-- The recorder takes one more message, off the queue it is in. -/
theorem Kept.record (h : Kept cfg os st) (hopen : st.exited = false) (i : Recorder.Input)
    (hrest : st' = { st with
      registerQueue := st'.registerQueue
      sendQueue := st'.sendQueue
      matchQueue := st'.matchQueue })
    (hregister : (Recorder.registration? i).toList ++ st'.registerQueue = st.registerQueue)
    (hsend : ∀ s, i = .send s ∨ s ∈ st'.sendQueue → s ∈ st.sendQueue)
    (hmatch : ∀ m, (∃ cache now, i = .matched m cache now) ∨ m ∈ st'.matchQueue →
      m ∈ st.matchQueue) :
    Kept cfg (os ++ (st'.record cfg i).2) (st'.record cfg i).1 := by
  obtain ⟨handled, hjoined⟩ := h.joined
  have hrecorder : st'.recorder = ((Recorder.machine cfg.recorder).run {} handled).1 := by
    rw [hrest]
    have hj := hjoined.recorder
    rwa [hopen] at hj
  have hexited : st'.exited = false := by
    rw [hrest]
    exact hopen
  have hquiet := rowsIn_ofRecorder ((Recorder.machine cfg.recorder).step st'.recorder i).2
  obtain ⟨htaken, hsent, hanswered, hunregistered, hseen⟩ := quiet_ofRecorder
    (Effect.sent ((Recorder.machine cfg.recorder).step st'.recorder i).2)
  refine h.written (handled ++ [i]) ?_ ⟨htaken, hsent, hanswered, hseen⟩
    ⟨?_, ?_, ?_, fun s hs => ?_, fun m hm => ?_⟩
  · unfold State.record
    dsimp only
    rw [hrest]
  · unfold State.record recording
    dsimp only
    rw [hexited, hrecorder, if_neg Bool.false_ne_true, EventMachine.run_snoc_fst]
  · have hrows := hjoined.rows
    rw [hopen] at hrows
    unfold State.record recording
    dsimp only
    rw [rowsIn_append, hquiet, hrows, hexited, hrecorder, if_neg Bool.false_ne_true,
      EventMachine.run_snoc_snd, Recorder.records_append]
    rfl
  · unfold State.record
    dsimp only
    rw [sentIn_append, hsent, List.append_nil, unregisteredIn_append, hunregistered,
      List.append_nil, Recorder.registrations_snoc, List.append_assoc (Recorder.registrations _),
      hregister]
    exact hjoined.registered
  · have hin : s ∈ st.sendQueue ∨ .send s ∈ handled := by
      rcases hs with hs | hs
      · rcases List.mem_append.mp hs with hs | hs
        · exact Or.inr hs
        · exact Or.inl (hsend s (Or.inl (List.mem_singleton.mp hs).symm))
      · exact Or.inl (hsend s (Or.inr hs))
    exact List.mem_append_left _ (hjoined.replies s hin.symm)
  · have hin : m ∈ st.matchQueue ∨ ∃ cache now, .matched m cache now ∈ handled := by
      rcases hm with ⟨cache, now, hm⟩ | hm
      · rcases List.mem_append.mp hm with hm | hm
        · exact Or.inr ⟨cache, now, hm⟩
        · exact Or.inl (hmatch m (Or.inl ⟨cache, now, (List.mem_singleton.mp hm).symm⟩))
      · exact Or.inl (hmatch m (Or.inr hm))
    exact List.mem_append_left _ (hjoined.matches_ m hin.symm)

/-- The flush closes what is open, and what waits for the recorder is lost. -/
theorem Kept.exit (h : Kept cfg os st) (hopen : st.exited = false) :
    Kept cfg (os ++ (st.recorderStep cfg .exit).2) (st.recorderStep cfg .exit).1 := by
  obtain ⟨handled, hjoined⟩ := h.joined
  have hrecorder := hjoined.recorder
  have hrows := hjoined.rows
  rw [hopen] at hrecorder hrows
  obtain ⟨htaken, hsent, hanswered, hunregistered, hseen⟩ :=
    quiet_ofRecorder (Effect.sent (Recorder.flush cfg.recorder st.recorder).2)
  obtain ⟨htakes, hsends, hanswers, hrefused, hwrites, hsees⟩ :=
    quiet_unregistered st.registerQueue
  unfold State.recorderStep
  dsimp only
  refine h.written handled rfl ⟨?_, ?_, ?_, fun m hm => ?_⟩ ⟨?_, ?_, ?_, fun s hs => ?_,
    fun m hm => ?_⟩
  · rw [takenIn_append, htaken, htakes, List.append_nil]
  · rw [sentIn_append, hsent, hsends, List.append_nil]
  · rw [answeredIn_append, hanswered, hanswers, List.append_nil]
  · exact (List.mem_append.mp hm).elim (hseen m) (hsees m)
  · rw [hrecorder]
    rfl
  · rw [rowsIn_append, rowsIn_append, rowsIn_ofRecorder, hwrites, List.append_nil, hrows, hrecorder]
    exact (Recorder.records_append _ _).symm
  · rw [sentIn_append, sentIn_append, hsent, hsends, List.append_nil, List.append_nil,
      unregisteredIn_append, unregisteredIn_append, hunregistered, hrefused, List.nil_append,
      List.append_nil]
    refine List.Perm.trans ?_ hjoined.registered
    rw [List.append_assoc]
    exact List.perm_append_comm.append_left _
  · exact List.mem_append_left _ (hjoined.replies s (hs.imp_right fun hin => by cases hin))
  · exact List.mem_append_left _ (hjoined.matches_ m (hm.imp_right fun hin => by cases hin))

theorem Kept.recorderStep (h : Kept cfg os st) (hopen : st.exited = false) (i : Input) :
    Kept cfg (os ++ (st.recorderStep cfg i).2) (st.recorderStep cfg i).1 := by
  have hidle : Kept cfg (os ++ []) st := by
    rw [List.append_nil]
    exact h
  cases i with
  | takeRegister =>
    unfold State.recorderStep
    dsimp only
    split
    · exact hidle
    · next reg rest hq =>
      exact h.record hopen (.register reg) rfl hq.symm (fun s hs => hs.elim nofun id) fun m hm =>
        hm.elim (fun ⟨_, _, heq⟩ => nomatch heq) id
  | takeReply =>
    unfold State.recorderStep
    dsimp only
    split
    · exact hidle
    · next s rest hq =>
      refine h.record hopen (.send s) rfl rfl (fun s' hs => ?_) fun m hm =>
        hm.elim (fun ⟨_, _, heq⟩ => nomatch heq) id
      rw [hq]
      rcases hs with heq | hs
      · exact List.mem_cons.mpr (Or.inl (Recorder.Input.send.inj heq).symm)
      · exact List.mem_cons_of_mem _ hs
  | takeMatch now =>
    unfold State.recorderStep
    dsimp only
    split
    · exact hidle
    · next m rest hq =>
      refine h.record hopen _ rfl rfl (fun s hs => hs.elim nofun id) fun m' hm => ?_
      rw [hq]
      rcases hm with ⟨_, _, heq⟩ | hm
      · exact List.mem_cons.mpr (Or.inl (Recorder.Input.matched.inj heq).1.symm)
      · exact List.mem_cons_of_mem _ hm
  | sweep now =>
    exact h.record hopen (.sweep now) rfl rfl (fun s hs => hs.elim nofun id) fun m hm =>
      hm.elim (fun ⟨_, _, heq⟩ => nomatch heq) id
  | exit => exact h.exit hopen
  | _ => exact hidle

theorem Kept.step (h : Kept cfg os st) (hids : (cfg.senders.map SenderConfig.id).Nodup) (i : Input)
    (htimely : Timely st i) :
    Kept cfg (os ++ ((machine cfg).step st i).2) ((machine cfg).step st i).1 := by
  have hrecorder : Kept cfg
      (os ++ (if st.exited = true then (st, []) else st.recorderStep cfg i).2)
      (if st.exited = true then (st, []) else st.recorderStep cfg i).1 := by
    cases hopen : st.exited with
    | true =>
      rw [if_pos rfl, List.append_nil]
      exact h
    | false =>
      rw [if_neg Bool.false_ne_true]
      exact h.recorderStep hopen i
  cases i with
  | nextChunk draws => exact h.nextChunk draws
  | offer => exact h.offer
  | publish => exact h.publish
  | prepare currentSlot ready cached tips now =>
    exact h.prepare hids currentSlot ready cached tips now
  | evict currentSlot => exact h.evict currentSlot
  | ordered event now => exact h.ordered event now htimely
  | takeTrigger cached clock => exact h.takeTrigger hids cached clock
  | sendVariant => exact h.sendVariant
  | answer n outcome => exact h.answer n outcome
  | takeRegister => exact hrecorder
  | takeReply => exact hrecorder
  | takeMatch now => exact hrecorder
  | sweep now => exact hrecorder
  | exit => exact hrecorder

end

end Phase3
end SolanaBench.TickTrigger
