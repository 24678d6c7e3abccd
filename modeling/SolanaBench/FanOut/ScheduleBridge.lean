import Mathlib.Data.Finset.Image
import SolanaBench.FanOut.Preparer
import SolanaBench.FanOut.SchedulePump

/-! The way of a schedule entry: from the pump over the bridge to the preparer, which keeps it
until there is a nonce. On the way the bridge adds it to the schedule of the observer, which it
exchanges only now and then. Each of the three threads leaves when it sees the stop flag. -/
namespace SolanaBench.FanOut.ScheduleBridge

/-- Where the bridge stands: at the head of its loop, or waiting for an entry. -/
inductive Phase
  | top
  | waiting
  | exited
  deriving DecidableEq, Repr

structure State where
  pump : SchedulePump.State
  scheduleChannel : List ScheduleEntry := []
  phase : Phase := .top
  accumulated : Finset ScheduleEntry := ∅
  lastSwap : Instant
  /-- `observer_schedule`. -/
  observerSchedule : Finset ScheduleEntry := ∅
  preparerChannel : List ScheduleEntry := []
  /-- The local queue of the preparer. -/
  pending : List ScheduleEntry := []
  preparerLeft : Bool := false

inductive Input
  | setSlot (slot : ℕ)
  | setStop
  | pump
  /-- The bridge looks at the stop flag. -/
  | check
  /-- The bridge receives an entry, or times out where there is none. -/
  | receive (now : Instant)
  /-- The preparer takes an entry that has arrived. -/
  | drain
  /-- `take_ready` gives the preparer a nonce. -/
  | claim (nonce : TakenNonce)
  /-- The preparer at the head of its loop, where it may have to leave. -/
  | leave

inductive Event
  | forwarded (entry : ScheduleEntry) (now : Instant)
  /-- The preparer has left, and the bridge ignores that the entry does not get through. -/
  | refused (entry : ScheduleEntry) (now : Instant)
  /-- The end of an iteration of the bridge. -/
  | turned (now : Instant)
  | prepared (entry : ScheduleEntry) (nonce : TakenNonce)
  /-- Lost with the preparer, which had it. -/
  | discarded (entry : ScheduleEntry)
  deriving DecidableEq

/-- A new snapshot, if the last one is at least `age` old. -/
def State.swap (st : State) (now : Instant) (age : Duration) : State :=
  if Instant.saturatingDurationSince now st.lastSwap ≥ age then
    { st with observerSchedule := st.accumulated, lastSwap := now }
  else st

def State.forward (st : State) (entry : ScheduleEntry) (rest : List ScheduleEntry) : State :=
  { st with
    scheduleChannel := rest
    accumulated := insert entry st.accumulated
    preparerChannel :=
      if st.preparerLeft then st.preparerChannel else st.preparerChannel ++ [entry] }

def State.passing (st : State) (entry : ScheduleEntry) (now : Instant) : Event :=
  if st.preparerLeft then .refused entry now else .forwarded entry now

/-- The receiver goes with the thread. -/
def State.exit (st : State) : State :=
  { st with phase := .exited, scheduleChannel := [], pump := { st.pump with closed := true } }

def check (st : State) : State :=
  match st.phase with
  | .top =>
    if st.pump.stop then st.exit else { st with phase := .waiting }
  | _ => st

def receive (st : State) (now : Instant) : State × List Event :=
  match st.phase with
  | .waiting =>
    match st.scheduleChannel with
    | entry :: rest =>
      ({ (st.forward entry rest).swap now 500_000_000 with phase := .top },
        [st.passing entry now, .turned now])
    | [] =>
      -- without the pump the channel is disconnected
      if st.pump.phase = .exited then (st.exit, [])
      else ({ st.swap now 2_000_000_000 with phase := .top }, [.turned now])
  | _ => (st, [])

def drain (st : State) : State :=
  match st.preparerChannel with
  | [] => st
  | entry :: rest => { st with preparerChannel := rest, pending := st.pending ++ [entry] }

def claim (st : State) (nonce : TakenNonce) : State × List Event :=
  match st.pending with
  | [] => (st, [])
  | entry :: rest => ({ st with pending := rest }, [.prepared entry nonce])

/-- The preparer leaves at the stop flag, or when it has nothing left and the bridge is gone. -/
def leave (st : State) : State × List Event :=
  if st.preparerLeft = false ∧
      (st.pump.stop ∨ st.phase = .exited ∧ st.pending = [] ∧ st.preparerChannel = []) then
    ({ st with preparerLeft := true, pending := [], preparerChannel := [] },
      (st.pending ++ st.preparerChannel).map .discarded)
  else (st, [])

def pump (s : Schedule) (leadSlots : ℕ) (st : State) : State :=
  let r := SchedulePump.pump s leadSlots st.pump
  { st with
    pump := r.1
    scheduleChannel := st.scheduleChannel ++ r.2.map SchedulePump.Sent.entry }

def machine (s : Schedule) (leadSlots : ℕ) : EventMachine State Input Event where
  step st
    | .setSlot slot => ({ st with pump := { st.pump with currentSlot := slot } }, [])
    | .setStop => ({ st with pump := { st.pump with stop := true } }, [])
    | .pump => (pump s leadSlots st, [])
    | .check => (check st, [])
    | .receive now => receive st now
    | .drain => (drain st, [])
    | .claim nonce => claim st nonce
    | .leave => leave st

/-! ## What is on the way -/

def prepared? : Event → Option ScheduleEntry
  | .prepared entry _ => some entry
  | _ => none

def discarded? : Event → Option ScheduleEntry
  | .discarded entry => some entry
  | _ => none

def refused? : Event → Option ScheduleEntry
  | .refused entry _ => some entry
  | _ => none

def preparedIn (os : List Event) : List ScheduleEntry := os.filterMap prepared?

def discardedIn (os : List Event) : List ScheduleEntry := os.filterMap discarded?

def refusedIn (os : List Event) : List ScheduleEntry := os.filterMap refused?

/-- What the preparer was given, in order. -/
def State.given (st : State) (os : List Event) : List ScheduleEntry :=
  preparedIn os ++ (st.pending ++ st.preparerChannel) ++ discardedIn os

/-- What the bridge has passed on, in order. -/
def State.passed (st : State) (os : List Event) : List ScheduleEntry := st.given os ++ refusedIn os

/-- The bridge passed the entry on at that time, to the preparer or after it had left. -/
def PassedAt (os : List Event) (entry : ScheduleEntry) (now : Instant) : Prop :=
  .forwarded entry now ∈ os ∨ .refused entry now ∈ os

def time? : Input → Option Instant
  | .receive now => some now
  | _ => none

/-- The readings of the clock, from the one before the loop on. -/
def times (start : Instant) (xs : List Input) : List Instant := start :: xs.filterMap time?

/-- What the bridge has passed on is the beginning of what the pump has sent, and what is left of
that is in the channel of a bridge that runs. -/
def Sends (s : Schedule) (st : State) (os : List Event) : Prop :=
  ∃ sent, SchedulePump.Accounts s st.pump sent ∧
    st.passed os <+: sent.map SchedulePump.Sent.entry ∧
      (st.phase ≠ .exited →
        st.passed os ++ st.scheduleChannel = sent.map SchedulePump.Sent.entry)

/-- While the preparer is there, no entry is lost behind the bridge. -/
def Kept (st : State) (os : List Event) : Prop :=
  st.preparerLeft = false → discardedIn os = [] ∧ refusedIn os = []

/-- No thread has left. -/
structure Running (st : State) : Prop where
  pump : st.pump.phase ≠ .exited
  opened : st.pump.closed = false
  bridge : st.phase ≠ .exited
  preparer : st.preparerLeft = false

/-- The snapshot has every entry that was passed on before the last swap, and no other entry than
the ones passed on; `ts` are the readings of the clock. -/
structure Published (ts : List Instant) (st : State) (os : List Event) : Prop where
  known : st.observerSchedule ⊆ st.accumulated
  gathered : ∀ entry ∈ st.accumulated, entry ∈ st.passed os
  kept : ∀ entry t, PassedAt os entry t → entry ∈ st.accumulated
  missed : ∀ entry t, PassedAt os entry t → entry ∉ st.observerSchedule → st.lastSwap ≤ t
  young : ∀ t, .turned t ∈ os → t < st.lastSwap + 2_000_000_000
  swapped : st.lastSwap ∈ ts
  read : ∀ t, .turned t ∈ os → t ∈ ts

section

variable {s : Schedule} {leadSlots : ℕ} {ts : List Instant} {now : Instant} {st : State}
  {os : List Event}

/-- What the bridge does where it may receive: nothing, or it passes an entry on, leaves or times
out. -/
theorem receive_cases (st : State) (now : Instant) :
    receive st now = (st, []) ∨
    (∃ entry rest, st.phase = .waiting ∧ st.scheduleChannel = entry :: rest ∧
      receive st now = ({ (st.forward entry rest).swap now 500_000_000 with phase := .top },
        [st.passing entry now, .turned now])) ∨
    (st.pump.phase = .exited ∧ receive st now = (st.exit, [])) ∨
    (st.phase = .waiting ∧
      receive st now = ({ st.swap now 2_000_000_000 with phase := .top }, [.turned now])) := by
  unfold receive
  split
  · next hwaiting =>
    split
    · next entry rest hchannel => exact Or.inr (Or.inl ⟨entry, rest, hwaiting, hchannel, rfl⟩)
    · split
      · next hgone => exact Or.inr (Or.inr (Or.inl ⟨hgone, rfl⟩))
      · exact Or.inr (Or.inr (Or.inr ⟨hwaiting, rfl⟩))
  · exact Or.inl rfl

@[simp] theorem preparedIn_append (os os' : List Event) :
    preparedIn (os ++ os') = preparedIn os ++ preparedIn os' := List.filterMap_append

@[simp] theorem discardedIn_append (os os' : List Event) :
    discardedIn (os ++ os') = discardedIn os ++ discardedIn os' := List.filterMap_append

@[simp] theorem refusedIn_append (os os' : List Event) :
    refusedIn (os ++ os') = refusedIn os ++ refusedIn os' := List.filterMap_append

@[simp] theorem preparedIn_discarded (l : List ScheduleEntry) :
    preparedIn (l.map .discarded) = [] := by
  simp [preparedIn, prepared?, List.filterMap_map, Function.comp_def]

@[simp] theorem discardedIn_discarded (l : List ScheduleEntry) :
    discardedIn (l.map .discarded) = l := by
  simp [discardedIn, discarded?, List.filterMap_map, Function.comp_def]

@[simp] theorem refusedIn_discarded (l : List ScheduleEntry) :
    refusedIn (l.map .discarded) = [] := by
  simp [refusedIn, refused?, List.filterMap_map, Function.comp_def]

@[simp] theorem pump_swap {age : Duration} : (st.swap now age).pump = st.pump := by
  unfold State.swap
  split <;> rfl

@[simp] theorem scheduleChannel_swap {age : Duration} :
    (st.swap now age).scheduleChannel = st.scheduleChannel := by
  unfold State.swap
  split <;> rfl

@[simp] theorem accumulated_swap {age : Duration} :
    (st.swap now age).accumulated = st.accumulated := by
  unfold State.swap
  split <;> rfl

@[simp] theorem preparerLeft_swap {age : Duration} :
    (st.swap now age).preparerLeft = st.preparerLeft := by
  unfold State.swap
  split <;> rfl

@[simp] theorem passed_swap {age : Duration} {phase : Phase} :
    ({ st.swap now age with phase } : State).passed os = st.passed os := by
  unfold State.swap
  split <;> rfl

@[simp] theorem passed_turned : st.passed (os ++ [.turned now]) = st.passed os := by
  simp [State.passed, State.given, preparedIn, prepared?, discardedIn, discarded?, refusedIn,
    refused?, List.filterMap_cons]

theorem passed_drain : (drain st).passed os = st.passed os := by
  unfold drain
  split
  · rfl
  · next hchannel => simp [State.passed, State.given, hchannel]

theorem passed_claim (nonce : TakenNonce) :
    (claim st nonce).1.passed (os ++ (claim st nonce).2) = st.passed os := by
  unfold claim
  split
  · rw [List.append_nil]
  · next hpending =>
    simp [State.passed, State.given, hpending, preparedIn, prepared?, discardedIn, discarded?,
      refusedIn, refused?, List.filterMap_cons]

theorem passed_leave (h : Kept st os) :
    (leave st).1.passed (os ++ (leave st).2) = st.passed os := by
  unfold leave
  split
  · next hleave =>
    obtain ⟨hdiscarded, hrefused⟩ := h hleave.1
    simp [State.passed, State.given, hdiscarded, hrefused]
  · rw [List.append_nil]

/-- An entry that is passed on is behind all earlier ones, wherever it ends. -/
theorem passed_forward (h : Kept st os) (entry : ScheduleEntry) (rest : List ScheduleEntry) :
    (st.forward entry rest).passed (os ++ [st.passing entry now]) = st.passed os ++ [entry] := by
  cases hleft : st.preparerLeft with
  | true =>
    simp [State.passed, State.given, State.forward, State.passing, hleft, preparedIn, prepared?,
      discardedIn, discarded?, refusedIn, refused?, List.filterMap_cons]
  | false =>
    obtain ⟨hdiscarded, hrefused⟩ := h hleft
    unfold discardedIn at hdiscarded
    unfold refusedIn at hrefused
    simp [State.passed, State.given, State.forward, State.passing, hleft, preparedIn, prepared?,
      discardedIn, discarded?, refusedIn, refused?, hdiscarded, hrefused, List.filterMap_cons]

theorem Sends.pump (h : Sends s st os) : Sends s (pump s leadSlots st) os := by
  obtain ⟨sent, haccounts, hpassed, hwhole⟩ := h
  refine ⟨_, haccounts.pump, ?_, fun hrunning => ?_⟩
  · rw [List.map_append]
    exact hpassed.trans (List.prefix_append _ _)
  · rw [List.map_append, ← hwhole hrunning, List.append_assoc]
    rfl

theorem Sends.exit (h : Sends s st os) : Sends s st.exit os := by
  obtain ⟨sent, haccounts, hpassed, -⟩ := h
  exact ⟨sent, haccounts, hpassed, fun hrunning => absurd rfl hrunning⟩

/-- Nothing is lost between two channels. -/
theorem Sends.of_passed (h : Sends s st os) {st' : State} {os' : List Event}
    (hpump : st'.pump = st.pump) (hrunning : st'.phase ≠ .exited → st.phase ≠ .exited)
    (hpassed : st'.passed os' = st.passed os)
    (hchannel : st'.scheduleChannel = st.scheduleChannel) : Sends s st' os' := by
  obtain ⟨sent, haccounts, hsent, hwhole⟩ := h
  unfold Sends
  rw [hpump, hpassed, hchannel]
  exact ⟨sent, haccounts, hsent, fun hphase => hwhole (hrunning hphase)⟩

theorem Sends.check (h : Sends s st os) : Sends s (check st) os := by
  unfold ScheduleBridge.check
  split
  · next htop =>
    split
    · exact h.exit
    · exact h.of_passed rfl (fun _ => by simp [htop]) rfl rfl
  · exact h

theorem Sends.receive (h : Sends s st os) (hkept : Kept st os) :
    Sends s (receive st now).1 (os ++ (receive st now).2) := by
  obtain heq | ⟨entry, rest, hwaiting, hchannel, heq⟩ | ⟨-, heq⟩ | ⟨hwaiting, heq⟩ :=
    receive_cases st now
  · rw [heq, List.append_nil]
    exact h
  · rw [heq]
    obtain ⟨sent, haccounts, -, hwhole⟩ := h
    have hsent := hwhole (by simp [hwaiting])
    rw [hchannel, ← List.singleton_append, ← List.append_assoc] at hsent
    have hpassed : ({ (st.forward entry rest).swap now 500_000_000 with
        phase := .top } : State).passed (os ++ [st.passing entry now, .turned now]) =
        st.passed os ++ [entry] := by
      rw [passed_swap, List.append_cons, passed_turned, passed_forward hkept]
    refine ⟨sent, ?_, ?_, fun _ => ?_⟩
    · simpa [State.forward] using haccounts
    · rw [hpassed]
      exact ⟨rest, hsent⟩
    · rw [hpassed]
      simpa [State.forward] using hsent
  · rw [heq, List.append_nil]
    exact h.exit
  · rw [heq]
    refine h.of_passed ?_ (fun _ => by simp [hwaiting]) ?_ ?_
    · simp
    · rw [passed_turned, passed_swap]
    · simp

theorem Sends.step (h : Sends s st os) (hkept : Kept st os) (x : Input) :
    Sends s ((machine s leadSlots).step st x).1 (os ++ ((machine s leadSlots).step st x).2) := by
  cases x with
  | receive now => exact h.receive hkept
  | claim nonce =>
    refine h.of_passed ?_ ?_ (passed_claim nonce) ?_ <;>
      simp only [machine, claim] <;> split <;> simp
  | leave =>
    refine h.of_passed ?_ ?_ (passed_leave hkept) ?_ <;>
      simp only [machine, leave] <;> split <;> simp
  | pump => exact (List.append_nil os).symm ▸ h.pump
  | check => exact (List.append_nil os).symm ▸ h.check
  | drain =>
    rw [show ((machine s leadSlots).step st .drain).2 = [] from rfl, List.append_nil]
    refine h.of_passed ?_ ?_ passed_drain ?_ <;> simp only [machine, drain] <;> split <;> simp
  | setSlot slot => exact (List.append_nil os).symm ▸ h
  | setStop => exact (List.append_nil os).symm ▸ h

/-! ## The threads that leave -/

theorem Kept.of_eq (h : Kept st os) {st' : State} {os' : List Event}
    (hleft : st'.preparerLeft = false → st.preparerLeft = false)
    (hdiscarded : discardedIn os' = discardedIn os) (hrefused : refusedIn os' = refusedIn os) :
    Kept st' os' := by
  intro hthere
  rw [hdiscarded, hrefused]
  exact h (hleft hthere)

theorem Kept.step (h : Kept st os) (x : Input) :
    Kept ((machine s leadSlots).step st x).1 (os ++ ((machine s leadSlots).step st x).2) := by
  cases x with
  | receive now =>
    simp only [machine]
    obtain heq | ⟨entry, rest, -, -, heq⟩ | ⟨-, heq⟩ | ⟨-, heq⟩ := receive_cases st now
    · rw [heq, List.append_nil]
      exact h
    · rw [heq]
      intro hthere
      have hleft : st.preparerLeft = false := by simpa [State.forward] using hthere
      obtain ⟨hdiscarded, hrefused⟩ := h hleft
      rw [discardedIn_append, refusedIn_append, hdiscarded, hrefused]
      simp [State.passing, hleft, discardedIn, discarded?, refusedIn, refused?]
    · rw [heq, List.append_nil]
      exact h
    · rw [heq]
      refine h.of_eq (fun hthere => ?_) ?_ ?_
      · simpa using hthere
      · simp [discardedIn, discarded?]
      · simp [refusedIn, refused?]
  | claim nonce =>
    simp only [machine, claim]
    split
    · rw [List.append_nil]
      exact h
    · refine h.of_eq id ?_ ?_
      · simp [discardedIn, discarded?]
      · simp [refusedIn, refused?]
  | leave =>
    simp only [machine, leave]
    split
    · exact nofun
    · rw [List.append_nil]
      exact h
  | drain =>
    refine h.of_eq ?_ (by simp [machine]) (by simp [machine])
    simp only [machine, drain]
    split <;> exact id
  | check =>
    refine h.of_eq ?_ (by simp [machine]) (by simp [machine])
    simp only [machine, ScheduleBridge.check]
    split
    · split <;> exact id
    · exact id
  | pump => exact (List.append_nil os).symm ▸ h
  | setSlot slot => exact (List.append_nil os).symm ▸ h
  | setStop => exact (List.append_nil os).symm ▸ h

/-- The stop flag stays set. -/
theorem stop_of_step {x : Input}
    (h : ((machine s leadSlots).step st x).1.pump.stop = false) : st.pump.stop = false := by
  cases x with
  | setStop => cases h
  | setSlot slot => exact h
  | pump => exact SchedulePump.pump_frame.2.1.symm.trans h
  | check =>
    simp only [machine, ScheduleBridge.check] at h
    split at h
    · split at h <;> exact h
    · exact h
  | receive now =>
    simp only [machine] at h
    obtain heq | ⟨entry, rest, -, -, heq⟩ | ⟨-, heq⟩ | ⟨-, heq⟩ := receive_cases st now <;>
      rw [heq] at h <;> simpa [State.forward, State.exit] using h
  | drain =>
    simp only [machine, drain] at h
    split at h <;> exact h
  | claim nonce =>
    simp only [machine, claim] at h
    split at h <;> exact h
  | leave =>
    simp only [machine, leave] at h
    split at h <;> exact h

theorem Running.step (h : Running st) (hstop : st.pump.stop = false) (x : Input) :
    Running ((machine s leadSlots).step st x).1 := by
  obtain ⟨hpump, hopened, hbridge, hpreparer⟩ := id h
  cases x with
  | setStop => exact ⟨hpump, hopened, hbridge, hpreparer⟩
  | setSlot slot => exact ⟨hpump, hopened, hbridge, hpreparer⟩
  | pump =>
    exact ⟨SchedulePump.phase_pump_ne_exited hstop hopened hpump,
      SchedulePump.pump_frame.2.2.trans hopened, hbridge, hpreparer⟩
  | check =>
    simp only [machine, ScheduleBridge.check, hstop]
    split
    · exact ⟨hpump, hopened, nofun, hpreparer⟩
    · exact h
  | receive now =>
    simp only [machine]
    obtain heq | ⟨entry, rest, -, -, heq⟩ | ⟨hgone, -⟩ | ⟨-, heq⟩ := receive_cases st now
    · rw [heq]
      exact h
    · rw [heq]
      refine ⟨?_, ?_, nofun, ?_⟩ <;> simpa [State.forward]
    · exact absurd hgone hpump
    · rw [heq]
      refine ⟨?_, ?_, nofun, ?_⟩ <;> simpa
  | drain =>
    simp only [machine, drain]
    split
    · exact h
    · exact ⟨hpump, hopened, hbridge, hpreparer⟩
  | claim nonce =>
    simp only [machine, claim]
    split
    · exact h
    · exact ⟨hpump, hopened, hbridge, hpreparer⟩
  | leave =>
    have hstays : leave st = (st, []) := by
      unfold leave
      exact if_neg (by simp [hstop, hbridge])
    simp only [machine, hstays]
    exact h

/-! ## The snapshot -/

theorem Published.mono (h : Published ts st os) {st' : State} {os' : List Event}
    (hobserver : st'.observerSchedule = st.observerSchedule)
    (haccumulated : st'.accumulated = st.accumulated) (hlast : st'.lastSwap = st.lastSwap)
    (hpassed : st'.passed os' = st.passed os)
    (hat : ∀ entry t, PassedAt os' entry t → PassedAt os entry t)
    (hturned : ∀ t, .turned t ∈ os' → .turned t ∈ os) : Published ts st' os' where
  known := by rw [hobserver, haccumulated]; exact h.known
  gathered := by rw [haccumulated, hpassed]; exact h.gathered
  kept entry t ht := by rw [haccumulated]; exact h.kept entry t (hat entry t ht)
  missed entry t ht := by rw [hobserver, hlast]; exact h.missed entry t (hat entry t ht)
  young t ht := by rw [hlast]; exact h.young t (hturned t ht)
  swapped := by rw [hlast]; exact h.swapped
  read t ht := h.read t (hturned t ht)

/-- A step that neither reads the clock nor says anything. -/
theorem Published.quiet (h : Published ts st os) {st' : State}
    (hobserver : st'.observerSchedule = st.observerSchedule)
    (haccumulated : st'.accumulated = st.accumulated) (hlast : st'.lastSwap = st.lastSwap)
    (hpassed : st'.passed os = st.passed os) : Published (ts ++ []) st' (os ++ []) := by
  rw [List.append_nil, List.append_nil]
  exact h.mono hobserver haccumulated hlast hpassed (fun _ _ => id) fun _ => id

/-- `swap` at the end of an iteration. -/
theorem Published.swap (h : Published ts st os) (hclock : ∀ t ∈ ts, t ≤ now) (age : Duration)
    (hage : age ≤ 2_000_000_000) :
    Published (ts ++ [now]) { st.swap now age with phase := .top } (os ++ [.turned now]) := by
  have hread : ∀ t, .turned t ∈ os ++ [.turned now] → t ∈ ts ++ [now] := by
    intro t ht
    rcases List.mem_append.mp ht with ht | ht
    · exact List.mem_append_left _ (h.read t ht)
    · exact List.mem_append_right _ (List.mem_singleton.mpr (by simpa using ht))
  have hpassed : ({ st.swap now age with phase := .top } : State).passed (os ++ [.turned now]) =
      st.passed os := passed_turned.trans passed_swap
  have hat : ∀ entry t, PassedAt (os ++ [.turned now]) entry t → PassedAt os entry t := by
    simp [PassedAt]
  by_cases hold : Instant.saturatingDurationSince now st.lastSwap ≥ age
  · have hlater : ∀ t, .turned t ∈ os ++ [.turned now] → t < now + 2_000_000_000 := by
      intro t ht
      have hle : t ≤ now := by
        rcases List.mem_append.mp (hread t ht) with ht | ht
        · exact hclock t ht
        · exact (List.mem_singleton.mp ht).le
      exact hle.trans_lt (Nat.lt_add_of_pos_right (by decide))
    refine ⟨?_, ?_, ?_, ?_, ?_, ?_, hread⟩
    · simp [State.swap, hold]
    · rw [hpassed]
      simpa using h.gathered
    · intro entry t ht
      simpa using h.kept entry t (hat entry t ht)
    · intro entry t ht hout
      rw [State.swap, if_pos hold] at hout
      exact absurd (h.kept entry t (hat entry t ht)) hout
    · simpa [State.swap, hold] using hlater
    · simp [State.swap, hold]
  · have hyoung : now < st.lastSwap + 2_000_000_000 := by
      have hlt : now - st.lastSwap < age := not_le.mp hold
      exact (Nat.sub_lt_iff_lt_add' (hclock _ h.swapped)).mp (hlt.trans_le hage)
    rw [State.swap, if_neg hold] at hpassed ⊢
    refine ⟨h.known, ?_, fun entry t ht => h.kept entry t (hat entry t ht),
      fun entry t ht => h.missed entry t (hat entry t ht), ?_,
      List.mem_append_left _ h.swapped, hread⟩
    · rw [hpassed]
      exact h.gathered
    · intro t ht
      rcases List.mem_append.mp ht with ht | ht
      · exact h.young t ht
      · obtain rfl : t = now := by simpa using ht
        exact hyoung

theorem passedAt_passing {entry other : ScheduleEntry} {t : Instant}
    (h : PassedAt (os ++ [st.passing entry now]) other t) :
    PassedAt os other t ∨ other = entry ∧ t = now := by
  unfold PassedAt State.passing at h
  unfold PassedAt
  split at h <;> simp at h <;> tauto

theorem turned_mem_passing {entry : ScheduleEntry} {t : Instant} :
    .turned t ∈ os ++ [st.passing entry now] ↔ .turned t ∈ os := by
  unfold State.passing
  split <;> simp

theorem Published.forward (h : Published ts st os) (hkept : Kept st os)
    (hclock : ∀ t ∈ ts, t ≤ now) (entry : ScheduleEntry) (rest : List ScheduleEntry) :
    Published ts (st.forward entry rest) (os ++ [st.passing entry now]) := by
  refine ⟨h.known.trans (Finset.subset_insert _ _), ?_, ?_, ?_, ?_, h.swapped, ?_⟩
  · intro other hother
    rw [passed_forward hkept]
    rcases Finset.mem_insert.mp hother with rfl | hother
    · exact List.mem_append_right _ (List.mem_singleton_self _)
    · exact List.mem_append_left _ (h.gathered other hother)
  · intro other t ht
    rcases passedAt_passing ht with ht | ⟨rfl, -⟩
    · exact Finset.mem_insert_of_mem (h.kept other t ht)
    · exact Finset.mem_insert_self _ _
  · intro other t ht hout
    rcases passedAt_passing ht with ht | ⟨-, rfl⟩
    · exact h.missed other t ht hout
    · exact hclock _ h.swapped
  · exact fun t ht => h.young t (turned_mem_passing.mp ht)
  · exact fun t ht => h.read t (turned_mem_passing.mp ht)

theorem Published.receive (h : Published ts st os) (hkept : Kept st os)
    (hclock : ∀ t ∈ ts, t ≤ now) :
    Published (ts ++ [now]) (receive st now).1 (os ++ (receive st now).2) := by
  have hidle : Published (ts ++ [now]) st os :=
    { h with
      swapped := List.mem_append_left _ h.swapped
      read := fun t ht => List.mem_append_left _ (h.read t ht) }
  obtain heq | ⟨entry, rest, -, -, heq⟩ | ⟨-, heq⟩ | ⟨-, heq⟩ := receive_cases st now
  · rw [heq, List.append_nil]
    exact hidle
  · rw [heq]
    have hswap := (h.forward hkept hclock entry rest).swap hclock 500_000_000 (by decide)
    simpa using hswap
  · rw [heq, List.append_nil]
    exact hidle.mono rfl rfl rfl rfl (fun _ _ => id) fun _ => id
  · rw [heq]
    exact h.swap hclock _ le_rfl

theorem Published.step (h : Published ts st os) (hkept : Kept st os) (x : Input)
    (hclock : ∀ now, time? x = some now → ∀ t ∈ ts, t ≤ now) :
    Published (ts ++ (time? x).toList) ((machine s leadSlots).step st x).1
      (os ++ ((machine s leadSlots).step st x).2) := by
  cases x with
  | receive now => exact h.receive hkept (hclock now rfl)
  | claim nonce =>
    rw [show ts ++ (time? (.claim nonce)).toList = ts from List.append_nil ts]
    refine h.mono ?_ ?_ ?_ (passed_claim nonce) ?_ ?_ <;> simp only [machine, claim] <;> split <;>
      simp [PassedAt]
  | leave =>
    rw [show ts ++ (time? .leave).toList = ts from List.append_nil ts]
    refine h.mono ?_ ?_ ?_ (passed_leave hkept) ?_ ?_ <;> simp only [machine, leave] <;> split <;>
      simp [PassedAt]
  | drain =>
    refine h.quiet ?_ ?_ ?_ passed_drain <;> simp only [machine, drain] <;> split <;> rfl
  | check =>
    refine h.quiet ?_ ?_ ?_ ?_ <;> simp only [machine, check] <;> split
    all_goals first | rfl | (split <;> rfl)
  | pump => exact h.quiet rfl rfl rfl rfl
  | setSlot slot => exact h.quiet rfl rfl rfl rfl
  | setStop => exact h.quiet rfl rfl rfl rfl

theorem times_snoc (start : Instant) (xs : List Input) (x : Input) :
    times start (xs ++ [x]) = times start xs ++ (time? x).toList := by
  cases h : time? x <;> simp [times, h]

theorem kept_run (s : Schedule) (leadSlots : ℕ) (p : SchedulePump.State) (start : Instant)
    (xs : List Input) :
    let r := (machine s leadSlots).run { pump := p, lastSwap := start } xs
    Kept r.1 r.2 :=
  (machine s leadSlots).run_rule (fun _ st os => Kept st os) _ (fun _ => ⟨rfl, rfl⟩)
    (fun _ _ _ x h => h.step x) xs

theorem published_run (s : Schedule) (leadSlots : ℕ) (p : SchedulePump.State) (start : Instant)
    (xs : List Input) (hclock : (times start xs).Pairwise (· ≤ ·)) :
    Published (times start xs) ((machine s leadSlots).run { pump := p, lastSwap := start } xs).1
      ((machine s leadSlots).run { pump := p, lastSwap := start } xs).2 := by
  have hrun := (machine s leadSlots).run_rule
    (fun xs st os => Kept st os ∧
      ((times start xs).Pairwise (· ≤ ·) → Published (times start xs) st os))
    { pump := p, lastSwap := start } ?_ ?_ xs
  · exact hrun.2 hclock
  · exact ⟨fun _ => ⟨rfl, rfl⟩, fun _ => ⟨Finset.Subset.refl _, by simp, by simp [PassedAt],
      by simp [PassedAt], by simp, by simp [times], by simp⟩⟩
  · rintro xs st os x ⟨hkept, ih⟩
    refine ⟨hkept.step x, fun hclock => ?_⟩
    rw [times_snoc] at hclock ⊢
    obtain ⟨hxs, -, hx⟩ := List.pairwise_append.mp hclock
    exact (ih hxs).step hkept x fun now hnow t ht => hx t ht now (by simp [hnow])

theorem sends_run (s : Schedule) (leadSlots currentSlot : ℕ) (start : Instant) (xs : List Input) :
    let r := (machine s leadSlots).run { pump := { currentSlot }, lastSwap := start } xs
    Sends s r.1 r.2 := by
  have hrun := (machine s leadSlots).run_rule (fun _ st os => Kept st os ∧ Sends s st os)
    { pump := { currentSlot }, lastSwap := start } ?_ ?_ xs
  · exact hrun.2
  · exact ⟨fun _ => ⟨rfl, rfl⟩, [], SchedulePump.accounts_run s leadSlots currentSlot [],
      List.prefix_rfl, fun _ => rfl⟩
  · exact fun _ _ _ x h => ⟨h.1.step x, h.2.step h.1 x⟩

theorem running_run (s : Schedule) (leadSlots currentSlot : ℕ) (start : Instant)
    (xs : List Input) :
    let r := (machine s leadSlots).run { pump := { currentSlot }, lastSwap := start } xs
    r.1.pump.stop = false → Running r.1 :=
  (machine s leadSlots).run_rule (fun _ st _ => st.pump.stop = false → Running st)
    { pump := { currentSlot }, lastSwap := start } (fun _ => ⟨nofun, rfl, nofun, rfl⟩)
    (fun _ _ _ x h hstop => (h (stop_of_step hstop)).step (stop_of_step hstop) x) xs

end

/-- The preparer is given the beginning of the schedule in order, and until the pump or the bridge
leaves, the rest of the generated chunks is on the way or was refused. The schedule of the observer
has only entries that the bridge passed on, and after an iteration of the bridge all those it passed
on 2 s before. Without the stop flag nothing is lost. -/
theorem entries_on_the_way (s : Schedule) (leadSlots currentSlot : ℕ) (start : Instant)
    (xs : List Input) (hclock : (times start xs).Pairwise (· ≤ ·)) :
    let r := (machine s leadSlots).run { pump := { currentSlot }, lastSwap := start } xs
    (∃ n, r.1.given r.2 <+: s.releaseChunks n) ∧
      (r.1.phase ≠ .exited → r.1.pump.phase ≠ .exited →
        ∃ n, r.1.given r.2 ++ refusedIn r.2 ++ (r.1.scheduleChannel ++ r.1.pump.buffered) =
          s.releaseChunks n) ∧
      (∀ entry ∈ r.1.observerSchedule, entry ∈ r.1.given r.2 ++ refusedIn r.2) ∧
      (∀ entry t now, PassedAt r.2 entry t → .turned now ∈ r.2 → t + 2_000_000_000 ≤ now →
        entry ∈ r.1.observerSchedule) ∧
      (r.1.pump.stop = false → Running r.1 ∧ discardedIn r.2 = [] ∧ refusedIn r.2 = []) := by
  intro r
  have hpublished := published_run s leadSlots { currentSlot } start xs hclock
  obtain ⟨sent, haccounts, hpassed, hwhole⟩ := sends_run s leadSlots currentSlot start xs
  refine ⟨?_, fun hbridge hpump => ?_, fun entry hentry => ?_, fun entry t now ht hnow hage => ?_,
    fun hstop => ?_⟩
  · obtain ⟨n, hn⟩ := haccounts.isPrefix
    exact ⟨n, ((List.prefix_append _ _).trans hpassed).trans hn⟩
  · obtain ⟨n, lost, -, hn, hlost⟩ := haccounts
    obtain rfl := hlost hpump
    rw [← hwhole hbridge, List.nil_append, List.append_assoc] at hn
    exact ⟨n, hn⟩
  · exact hpublished.gathered entry (hpublished.known hentry)
  · by_contra hout
    have hswap := hpublished.missed entry t ht hout
    have hyoung := hpublished.young now hnow
    exact absurd hyoung (not_lt.mpr ((Nat.add_le_add_right hswap _).trans hage))
  · have hrunning := running_run s leadSlots currentSlot start xs hstop
    exact ⟨hrunning, kept_run s leadSlots { currentSlot } start xs hrunning.preparer⟩

/-- An entry of slot 100; the bridge swaps when it times out. -/
def firstEntry : List Input :=
  [.pump, .pump, .check, .receive 100_000_000, .drain, .check, .receive 2_100_000_000]

theorem entries_on_the_way_sample :
    let r := (machine SchedulePump.fromSlot100 10).run
      { pump := { currentSlot := 95 }, lastSwap := 0 } firstEntry
    r.1.pending = [⟨100, 1⟩] ∧ ⟨100, 1⟩ ∈ r.1.observerSchedule ∧
      ∀ entry ∈ r.1.observerSchedule, entry ∈ r.1.given r.2 ++ refusedIn r.2 := by
  have h := entries_on_the_way SchedulePump.fromSlot100 10 95 0 firstEntry (by decide)
  exact ⟨by decide, h.2.2.2.1 ⟨100, 1⟩ 100_000_000 2_100_000_000 (Or.inl (by decide)) (by decide)
    (by decide), h.2.2.1⟩

end SolanaBench.FanOut.ScheduleBridge
