import SolanaBench.TickTrigger.Memo
import SolanaBench.TickTrigger.Phase3Kept

/-! What a run of the bench leaves in its file. However the threads take their turns, no variant is
sent twice, and each one that is sent waits for the recorder, is open, or has exactly one row,
which tells what became of it, unless the recorder had no room for it or was gone. -/
namespace SolanaBench.TickTrigger.Phase3

open Dispatcher TxBuilder
open TriggerEngine (TriggerEvent MatchEvent TriggerId)
open Recorder (RegisterEvent SendEvent TriggerRecord TriggerAttempt)

/-- A row is written from the registration of `p`, a reply to it and a match of its signature, each
of which happened, and has the outcome that they call for. -/
structure Truthful (cfg : Config) (os : List Event) (row : TriggerRecord)
    (p : TriggerEvent × PreSignedTx) (att : TriggerAttempt) : Prop where
  written : row =
    Recorder.triggerRecord cfg.recorder att (State.registerEvent cfg p.1 p.2) row.finalOutcome
  reply : ∀ s ∈ att.send, .answered s ∈ os ∧ s.key = keyOf p
  observed : ∀ m ∈ att.matched, .seen m ∈ os ∧ m.signature = p.2.signature
  landed : row.finalOutcome = .landed ↔ att.matched.isSome = true
  failed : row.finalOutcome = .sendError → ∃ s ∈ att.send, s.outcome.error.isSome = true

/-- The accounts of a run. -/
structure Accounted (cfg : Config) (os : List Event) (st : State) : Prop where
  /-- The dispatcher comes to no slot and tick twice, -/
  taken : ((takenIn os).map slotTick).Nodup
  /-- and sends at most one variant of a sender for it. -/
  once : ((sentIn os).map keyOf).Nodup
  own : ∀ p ∈ sentIn os, p.1 ∈ takenIn os ∧ slotTick p.1 ∈ st.accumulated ∧
    BuiltFor cfg p.1.slot p.1.tick p.2
  requests : ((answeredIn os).map SendEvent.key ++ st.flights.map Flight.key).Perm
    ((sentIn os).map keyOf)
  custody : ((rowsIn os).map TriggerRecord.key ++ st.recorder.attempts.keys ++
    st.registerQueue.map RegisterEvent.key ++ (unregisteredIn os).map RegisterEvent.key).Perm
      ((sentIn os).map keyOf)
  closed : st.exited = true → st.recorder.attempts.keys = []
  rows : ∀ row ∈ rowsIn os, ∃ p ∈ sentIn os, ∃ att, Truthful cfg os row p att
  /-- A signature is seen after the transaction was sent. -/
  seen : ∀ pre m post, os = pre ++ .seen m :: post →
    ∃ p ∈ sentIn pre, p.2.signature = m.signature

section

variable {cfg : Config} {os : List Event} {st : State}

/-- The trigger id tells slots and ticks apart. -/
theorem Kept.attempt_of_keyOf (h : Kept cfg os st) {p q : TriggerEvent × PreSignedTx}
    (hp : p ∈ sentIn os) (hq : q ∈ sentIn os) (heq : keyOf p = keyOf q) : attempt p = attempt q := by
  have hid : ∀ r ∈ sentIn os, r.1.triggerId = r.1.slot * 2 ^ 8 + r.1.tick ∧ r.1.tick < 2 ^ 8 := by
    intro r hr
    have htaken := (h.dispatched.own r (List.mem_append_left _ hr)).1
    obtain ⟨hslot, hin, hid⟩ := h.fired.known r.1 (List.mem_append_left _ htaken)
    have htick := h.scheduled.accumulated _ hin
    have hlt : r.1.tick < 2 ^ 8 := Nat.lt_of_le_of_lt htick (by decide)
    exact ⟨hid.trans (fromSlotTick_eq hslot hlt), hlt⟩
  obtain ⟨hpid, hptick⟩ := hid p hp
  obtain ⟨hqid, hqtick⟩ := hid q hq
  obtain ⟨htrigger, hsender⟩ := Prod.mk.inj heq
  have hnumber : p.1.slot * 2 ^ 8 + p.1.tick = q.1.slot * 2 ^ 8 + q.1.tick :=
    hpid.symm.trans (htrigger.trans hqid)
  have hslots : p.1.slot = q.1.slot := by omega
  have hticks : p.1.tick = q.1.tick := by omega
  exact Prod.ext (Prod.ext hslots hticks) hsender

theorem Kept.keys_nodup (h : Kept cfg os st) : ((sentIn os).map keyOf).Nodup := by
  have honce := h.dispatched.once
  rw [List.map_append] at honce
  have hsent := honce.of_append_left
  refine List.Nodup.map_on (fun p hp q hq heq => ?_) (List.Nodup.of_map _ hsent)
  exact List.inj_on_of_nodup_map hsent hp hq (h.attempt_of_keyOf hp hq heq)

/-! ## The recorder's books -/

theorem keys_registered {handled : List Recorder.Input} (h : Joined cfg os st handled) :
    ((Recorder.registrations handled).map RegisterEvent.key ++
      st.registerQueue.map RegisterEvent.key ++ (unregisteredIn os).map RegisterEvent.key).Perm
        ((sentIn os).map keyOf) := by
  have hkeys := h.registered.map RegisterEvent.key
  rw [List.map_append, List.map_append, List.map_map] at hkeys
  exact hkeys

theorem registered_nodup {handled : List Recorder.Input} (h : Joined cfg os st handled)
    (honce : ((sentIn os).map keyOf).Nodup) :
    ((Recorder.registrations handled).map RegisterEvent.key).Nodup :=
  ((keys_registered h).nodup_iff.mpr honce).of_append_left.of_append_left

theorem logged_recording (cfg : Config) (handled : List Recorder.Input) (exited : Bool) :
    Recorder.Logged handled (recording cfg handled exited).1
      (Recorder.records (recording cfg handled exited).2) := by
  cases exited with
  | true => exact Recorder.logged_runLoop cfg.recorder handled
  | false => exact Recorder.logged_run cfg.recorder handled

theorem attested_recording (cfg : Config) {handled : List Recorder.Input} (exited : Bool)
    (hnodup : ((Recorder.registrations handled).map RegisterEvent.key).Nodup) :
    ∀ row ∈ Recorder.records (recording cfg handled exited).2,
      ∃ reg att, Recorder.Attested cfg.recorder handled row reg att := by
  cases exited with
  | true => exact Recorder.attested_runLoop cfg.recorder handled hnodup
  | false => exact (Recorder.attested_run cfg.recorder handled hnodup).2

theorem Kept.custody (h : Kept cfg os st) : ((rowsIn os).map TriggerRecord.key ++
    st.recorder.attempts.keys ++ st.registerQueue.map RegisterEvent.key ++
      (unregisteredIn os).map RegisterEvent.key).Perm ((sentIn os).map keyOf) := by
  obtain ⟨handled, hjoined⟩ := h.joined
  have hnodup := registered_nodup hjoined h.keys_nodup
  refine List.Perm.trans ?_ (keys_registered hjoined)
  refine List.Perm.append_right _ (List.Perm.append_right _ (List.perm_iff_count.mpr fun k => ?_))
  have hcount := (logged_recording cfg handled st.exited).keys hnodup k
  rw [← hjoined.rows, ← hjoined.recorder] at hcount
  unfold Recorder.held at hcount
  rw [AList.weight_ite_eq_count] at hcount
  rw [List.count_append]
  exact hcount

theorem Kept.closed (h : Kept cfg os st) (hexited : st.exited = true) :
    st.recorder.attempts.keys = [] := by
  obtain ⟨handled, hjoined⟩ := h.joined
  rw [hjoined.recorder, hexited]
  exact List.eq_nil_iff_forall_not_mem.mpr fun k hk =>
    Recorder.opened_flush cfg.recorder _ k (AList.mem_keys.mp hk)

theorem Kept.truthful (h : Kept cfg os st) {row : TriggerRecord} (hrow : row ∈ rowsIn os) :
    ∃ p ∈ sentIn os, ∃ att, Truthful cfg os row p att := by
  obtain ⟨handled, hjoined⟩ := h.joined
  have hnodup := registered_nodup hjoined h.keys_nodup
  rw [hjoined.rows] at hrow
  obtain ⟨reg, att, hatt⟩ := attested_recording cfg st.exited hnodup row hrow
  have hin : reg ∈ (sentIn os).map fun p => State.registerEvent cfg p.1 p.2 :=
    hjoined.registered.subset
      (List.mem_append_left _ (List.mem_append_left _ hatt.sourced.registered))
  obtain ⟨p, hp, rfl⟩ := List.mem_map.mp hin
  refine ⟨p, hp, att, hatt.written, fun s hs => ?_, fun m hm => ?_, hatt.landed, hatt.failed⟩
  · obtain ⟨hsent, hkey⟩ := hatt.sourced.send s hs
    exact ⟨hjoined.replies s (Or.inl hsent), hkey⟩
  · obtain ⟨hsig, hmatched⟩ := hatt.sourced.matched m hm
    exact ⟨hjoined.matches_ m (Or.inl hmatched), hsig⟩

theorem Kept.accounted (h : Kept cfg os st) : Accounted cfg os st where
  taken := by
    have honce := h.fired.once
    rw [List.map_append] at honce
    exact honce.of_append_left
  once := h.keys_nodup
  own p hp := by
    obtain ⟨htaken, hbuilt⟩ := h.dispatched.own p (List.mem_append_left _ hp)
    obtain ⟨-, hin, -⟩ := h.fired.known p.1 (List.mem_append_left _ htaken)
    exact ⟨htaken, hin, hbuilt⟩
  requests := h.requested.flights
  custody := h.custody
  closed := h.closed
  rows _ hrow := h.truthful hrow
  seen := h.requested.seen

end

/-- A registration is refused only where its channel is full or the recorder has left. -/
def Excused (cfg : Config) (st : State) (i : Input) : Prop :=
  ∀ reg, .unregistered reg ∈ (step cfg st i).2 →
    (step cfg st i).1.exited = true ∨ queueCapacity ≤ (step cfg st i).1.registerQueue.length

theorem unregistered_notMem_ofRecorder {reg : RegisterEvent} (es : List Recorder.Event) :
    .unregistered reg ∉ es.map ofRecorder := by
  intro h
  obtain ⟨e, -, he⟩ := List.mem_map.mp h
  cases e <;> cases he

theorem excused_recorderStep (cfg : Config) (st : State) (i : Input) :
    ∀ reg, .unregistered reg ∈ (st.recorderStep cfg i).2 → (st.recorderStep cfg i).1.exited = true := by
  intro reg h
  cases i with
  | takeRegister =>
    unfold State.recorderStep at h
    dsimp only at h
    split at h
    · cases h
    · exact absurd h (unregistered_notMem_ofRecorder _)
  | takeReply =>
    unfold State.recorderStep at h
    dsimp only at h
    split at h
    · cases h
    · exact absurd h (unregistered_notMem_ofRecorder _)
  | takeMatch now =>
    unfold State.recorderStep at h
    dsimp only at h
    split at h
    · cases h
    · exact absurd h (unregistered_notMem_ofRecorder _)
  | sweep now => exact absurd h (unregistered_notMem_ofRecorder _)
  | exit => rfl
  | _ => cases h

theorem excused_step (cfg : Config) (st : State) (i : Input) : Excused cfg st i := by
  intro reg h
  have hrecorder : step cfg st i = (if st.exited then (st, []) else st.recorderStep cfg i) →
      (step cfg st i).1.exited = true := by
    intro hstep
    by_cases hexited : st.exited
    · rw [hstep, if_pos hexited]
      exact hexited
    · rw [if_neg hexited] at hstep
      rw [hstep] at h ⊢
      exact excused_recorderStep cfg st i reg h
  cases i with
  | sendVariant =>
    unfold step State.sendVariant at h ⊢
    dsimp only at h ⊢
    split at h
    · cases h
    · split at h
      · next hknown =>
        rw [if_pos hknown]
        obtain ⟨reg', hreg, -⟩ := List.mem_map.mp ((List.mem_cons.mp h).resolve_left nofun)
        exact (BoundedChannel.full_of_run hreg).imp_left fun hexited => by simpa using hexited
      · cases h
  | takeTrigger cached clock =>
    unfold step State.takeTrigger at h
    dsimp only at h
    split at h
    · split at h <;> simp at h
    · cases h
  | answer n outcome =>
    unfold step State.answer at h
    dsimp only at h
    split at h <;> simp at h
  | ordered event now =>
    obtain ⟨m, -, hm⟩ := List.mem_map.mp h
    cases hm
  | nextChunk draws => cases h
  | offer => cases h
  | publish => cases h
  | prepare currentSlot ready cached tips now => cases h
  | evict currentSlot => cases h
  | takeRegister => exact Or.inl (hrecorder rfl)
  | takeReply => exact Or.inl (hrecorder rfl)
  | takeMatch now => exact Or.inl (hrecorder rfl)
  | sweep now => exact Or.inl (hrecorder rfl)
  | exit => exact Or.inl (hrecorder rfl)

def sampleConfig : Config where
  preparer := sendersConfig plainSenders
  recorder := ⟨"run", 0, 30000000000, false, id⟩
  senderName _ := "sender"
  endpointUrl _ := "http://localhost"
  protocol _ := "http"
  channelCapacity := 16

def thirdTick : ScheduleGen.Draw := ⟨3, by decide⟩

/-- A later entry of the slot, with the transaction of the Helius sender. -/
def landingEntry : PohSupervisor.OrderedEntry :=
  { missedEntry with observation := { missedEntry.observation with signatures := [5] } }

def accepted : Recorder.SendOutcome where
  sendAt := 106
  sendAckAt := some 108
  signature := 5
  httpStatus := some 200
  rpcErrCode := none
  rpcErrMessage := none
  providerRequestId := none
  error := none
  endpointUrlUsed := none

def sampleRun : List Input :=
  [.nextChunk [thirdTick], .offer, .publish,
    .prepare 7 none (some 9) ⟨fun _ => some 3, fun _ => none⟩ 90,
    .ordered (.entry missedEntry) 105, .takeTrigger none id, .sendVariant, .sendVariant,
    .takeRegister, .takeRegister, .answer 0 accepted, .takeReply,
    .ordered (.entry landingEntry) 110, .takeMatch 111, .exit]

def sampleResult : State × List Event :=
  (machine sampleConfig).run (start sampleConfig 7 1 1) sampleRun

end SolanaBench.TickTrigger.Phase3
