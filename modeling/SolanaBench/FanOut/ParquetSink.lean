import Mathlib.Algebra.Order.Group.Nat
import Mathlib.Data.List.Flatten
import SolanaBench.FanOut.SiblingResolution
import SolanaBench.Lib.BoundedChannel

/-! The Parquet writer of the fan-out bench, from the channel of final records to the file. It looks
at the age of its buffer only when it waited in vain for a record, and the first batch that the file
refuses ends it, before the file is closed. -/
namespace SolanaBench.FanOut.ParquetSink

open Matcher (FinalRecord RegisterEvent Key Dispatched Concluded registrations finals rowsOf)

structure ParquetWriterConfig where
  rowGroupSize : ℕ
  flushInterval : Duration

structure State where
  buffer : List FinalRecord := []
  lastFlush : Instant
  /-- The batches in the file. -/
  written : List (List FinalRecord) := []
  /-- `run_loop` has returned with an error. -/
  failed : Bool := false

/-- What `recv_timeout` gives, with the time and whether the file would take a batch now. -/
inductive Input
  | record (r : FinalRecord) (now : Instant) (accepted : Bool)
  | timeout (now : Instant) (accepted : Bool)

def Input.record? : Input → Option FinalRecord
  | .record r _ _ => some r
  | .timeout _ _ => none

/-- `flush_buffer` with the `?` after it. -/
def State.flushBuffer (st : State) (accepted : Bool) : State :=
  if st.buffer = [] then st
  else if accepted then { st with buffer := [], written := st.written ++ [st.buffer] }
  else { st with failed := true }

def onRecord (cfg : ParquetWriterConfig) (st : State) (r : FinalRecord) (now : Instant)
    (accepted : Bool) : State :=
  let st := { st with buffer := st.buffer ++ [r] }
  if st.buffer.length ≥ cfg.rowGroupSize then
    { st.flushBuffer accepted with lastFlush := now }
  else st

def onTimeout (cfg : ParquetWriterConfig) (st : State) (now : Instant) (accepted : Bool) : State :=
  if st.buffer ≠ [] ∧ Instant.saturatingDurationSince now st.lastFlush ≥ cfg.flushInterval then
    { st.flushBuffer accepted with lastFlush := now }
  else st

def machine (cfg : ParquetWriterConfig) : EventMachine State Input Empty where
  step st
    | .record r now accepted => (if st.failed then st else onRecord cfg st r now accepted, [])
    | .timeout now accepted => (if st.failed then st else onTimeout cfg st now accepted, [])

/-- What is in the file when the thread ends. -/
structure File where
  batches : List (List FinalRecord)
  /-- A batch was refused. -/
  broken : Bool
  closed : Bool

/-- The end of `run_loop`, when the channel is disconnected. `last` says whether the file takes a
batch then, `closes` whether it can be closed. -/
def State.finish (st : State) (last closes : Bool) : File :=
  if st.failed then ⟨st.written, true, false⟩
  else
    let st := st.flushBuffer last
    ⟨st.written, st.failed, !st.failed && closes⟩

/-! ## The channel of final records -/

/-- The writer, with the channel that it receives from. -/
structure System where
  writer : State
  queue : List FinalRecord := []

inductive Move
  /-- `try_send` of the matcher, which only counts what does not get through. -/
  | offer (r : FinalRecord)
  /-- `recv_timeout` of the writer. -/
  | poll (now : Instant) (accepted : Bool)

inductive Event
  | took (w : Input)
  /-- The channel refused the record, or it went with its receiver. -/
  | lost (r : FinalRecord)

/-- What the writer receives, and what stays in the channel. -/
def System.receive (sys : System) (now : Instant) (accepted : Bool) : Input × List FinalRecord :=
  match sys.queue with
  | [] => (.timeout now accepted, [])
  | r :: rest => (.record r now accepted, rest)

def offer (capacity : ℕ) (sys : System) (r : FinalRecord) : System × List Event :=
  let offered := BoundedChannel.trySend capacity (!sys.writer.failed) sys.queue r
  ({ sys with queue := offered.1 }, offered.2.map .lost)

def poll (cfg : ParquetWriterConfig) (sys : System) (now : Instant) (accepted : Bool) :
    System × List Event :=
  if sys.writer.failed then (sys, [])
  else
    let received := sys.receive now accepted
    let writer := ((machine cfg).step sys.writer received.1).1
    if writer.failed then (⟨writer, []⟩, .took received.1 :: received.2.map .lost)
    else (⟨writer, received.2⟩, [.took received.1])

def system (cfg : ParquetWriterConfig) (capacity : ℕ) : EventMachine System Move Event where
  step sys
    | .offer r => offer capacity sys r
    | .poll now accepted => poll cfg sys now accepted

def Move.offered? : Move → Option FinalRecord
  | .offer r => some r
  | .poll _ _ => none

def Event.took? : Event → Option Input
  | .took w => some w
  | .lost _ => none

def Event.lost? : Event → Option FinalRecord
  | .took _ => none
  | .lost r => some r

def tookIn (os : List Event) : List Input := os.filterMap Event.took?

def lostIn (os : List Event) : List FinalRecord := os.filterMap Event.lost?

/-- What is lost in a step finds the channel full, or its receiver gone. -/
def Excused (cfg : ParquetWriterConfig) (capacity : ℕ) (sys : System) (m : Move) : Prop :=
  lostIn ((system cfg capacity).step sys m).2 ≠ [] →
    ((system cfg capacity).step sys m).1.writer.failed = true ∨
      capacity ≤ ((system cfg capacity).step sys m).1.queue.length

/-! ## What the file has of the records -/

/-- The records are in the file and the buffer, or the thread has failed. -/
structure Sunk (cap : ℕ) (rows : List FinalRecord) (st : State) : Prop where
  kept : st.failed = false → st.written.flatten ++ st.buffer = rows ∧ st.buffer.length < max cap 1
  broken : st.failed = true → ∃ missing, missing ≠ [] ∧ st.written.flatten ++ missing = rows
  sizes : ∀ b ∈ st.written, b ≠ [] ∧ b.length ≤ max cap 1

/-- The same of the file. -/
structure Filed (cap : ℕ) (rows : List FinalRecord) (file : File) : Prop where
  all : file.broken = false → file.batches.flatten = rows
  part : file.batches.flatten <+: rows
  missing : file.broken = true → file.batches.flatten ≠ rows
  closed : file.closed = true → file.broken = false
  sizes : ∀ b ∈ file.batches, b ≠ [] ∧ b.length ≤ max cap 1

section

variable {cfg : ParquetWriterConfig} {cap : ℕ} {rows : List FinalRecord} {st : State}

/-- A batch goes to the file or ends the thread. -/
theorem Sunk.flush (st : State) (hopen : st.failed = false) (hkept : st.written.flatten ++ st.buffer = rows)
    (hlen : st.buffer.length ≤ max cap 1) (hsizes : ∀ b ∈ st.written, b ≠ [] ∧ b.length ≤ max cap 1)
    (accepted : Bool) : Sunk cap rows (st.flushBuffer accepted) ∧
      ((st.flushBuffer accepted).failed = false → (st.flushBuffer accepted).buffer = []) := by
  have hroom : 0 < max cap 1 := lt_of_lt_of_le Nat.zero_lt_one (Nat.le_max_right cap 1)
  unfold State.flushBuffer
  split
  · next hempty =>
    refine ⟨⟨fun _ => ⟨hkept, ?_⟩, fun hfailed => ?_, hsizes⟩, fun _ => hempty⟩
    · rw [hempty]
      exact hroom
    · rw [hopen] at hfailed
      cases hfailed
  · next hne =>
    cases accepted with
    | true =>
      refine ⟨⟨fun _ => ⟨?_, hroom⟩, fun hfailed => ?_, fun b hb => ?_⟩, fun _ => rfl⟩
      · simpa using hkept
      · rw [if_pos rfl] at hfailed
        rw [hopen] at hfailed
        cases hfailed
      · rcases List.mem_append.mp hb with hb | hb
        · exact hsizes b hb
        · rw [List.mem_singleton.mp hb]
          exact ⟨hne, hlen⟩
    | false =>
      exact ⟨⟨fun hrunning => absurd hrunning (by simp), fun _ => ⟨st.buffer, hne, hkept⟩, hsizes⟩,
        fun hrunning => absurd hrunning (by simp)⟩

theorem Sunk.step (h : Sunk cfg.rowGroupSize rows st) (w : Input) :
    Sunk cfg.rowGroupSize (rows ++ w.record?.toList) ((machine cfg).step st w).1 := by
  have hfailed : st.failed = true → ∀ more,
      ∃ missing, missing ≠ [] ∧ st.written.flatten ++ missing = rows ++ more := by
    intro hfailed more
    obtain ⟨missing, hne, hrows⟩ := h.broken hfailed
    exact ⟨missing ++ more, List.append_ne_nil_of_left_ne_nil hne more,
      by rw [← List.append_assoc, hrows]⟩
  cases w with
  | record r now accepted =>
    simp only [machine]
    split
    · next hf =>
      exact ⟨fun hopen => absurd (hf.symm.trans hopen) (by simp), fun _ => hfailed hf _, h.sizes⟩
    · next hf =>
      have hopen := Bool.eq_false_of_not_eq_true hf
      obtain ⟨hkept, hlen⟩ := h.kept hopen
      have hpushed : st.written.flatten ++ (st.buffer ++ [r]) = rows ++ [r] := by
        rw [← List.append_assoc, hkept]
      unfold onRecord
      dsimp only
      split
      · have hlen' : (st.buffer ++ [r]).length ≤ max cfg.rowGroupSize 1 := by
          rw [List.length_append, List.length_singleton]
          exact hlen
        have hflush : Sunk cfg.rowGroupSize (rows ++ [r])
            ({ st with buffer := st.buffer ++ [r] }.flushBuffer accepted) :=
          (Sunk.flush { st with buffer := st.buffer ++ [r] } hopen hpushed hlen' h.sizes accepted).1
        exact ⟨hflush.kept, hflush.broken, hflush.sizes⟩
      · next hroom =>
        refine ⟨fun _ => ⟨hpushed, ?_⟩, fun hf' => absurd hf' hf, h.sizes⟩
        dsimp only at hroom ⊢
        omega
  | timeout now accepted =>
    rw [Input.record?, Option.toList_none, List.append_nil]
    simp only [machine]
    split
    · exact h
    · next hf =>
      have hopen := Bool.eq_false_of_not_eq_true hf
      obtain ⟨hkept, hlen⟩ := h.kept hopen
      unfold onTimeout
      split
      · have hflush := (Sunk.flush st hopen hkept hlen.le h.sizes accepted).1
        exact ⟨hflush.kept, hflush.broken, hflush.sizes⟩
      · exact h

theorem records_snoc (ws : List Input) (w : Input) :
    (ws ++ [w]).filterMap Input.record? = ws.filterMap Input.record? ++ w.record?.toList := by
  cases hw : w.record? <;> simp [hw]

theorem sunk_run (cfg : ParquetWriterConfig) (start : Instant) (ws : List Input) :
    Sunk cfg.rowGroupSize (ws.filterMap Input.record?)
      ((machine cfg).run { lastFlush := start } ws).1 := by
  induction ws using List.reverseRecOn with
  | nil =>
    exact ⟨fun _ => ⟨rfl, lt_of_lt_of_le Nat.zero_lt_one (Nat.le_max_right _ 1)⟩,
      fun hf => absurd hf Bool.false_ne_true, fun b hb => absurd hb List.not_mem_nil⟩
  | append_singleton ws w ih =>
    rw [EventMachine.run_snoc_fst, records_snoc]
    exact ih.step w

theorem Sunk.finish (h : Sunk cap rows st) (last closes : Bool) :
    Filed cap rows (st.finish last closes) := by
  have hbroken : ∀ s : State, Sunk cap rows s → s.failed = true →
      Filed cap rows ⟨s.written, true, false⟩ := by
    intro s hs hf
    obtain ⟨missing, hne, hrows⟩ := hs.broken hf
    refine ⟨nofun, ⟨missing, hrows⟩, fun _ hall => ?_, nofun, hs.sizes⟩
    rw [← hrows] at hall
    exact hne (List.append_right_eq_self.mp hall.symm)
  unfold State.finish
  split
  · next hf => exact hbroken st h hf
  · next hf =>
    have hopen := Bool.eq_false_of_not_eq_true hf
    obtain ⟨hkept, hlen⟩ := h.kept hopen
    obtain ⟨hflush, hempty⟩ := Sunk.flush st hopen hkept hlen.le h.sizes last
    dsimp only
    cases hlast : (st.flushBuffer last).failed with
    | true => exact hbroken _ hflush hlast
    | false =>
      have hall := (hflush.kept hlast).1
      rw [hempty hlast, List.append_nil] at hall
      exact ⟨fun _ => hall, ⟨[], (List.append_nil _).trans hall⟩, nofun, fun _ => rfl,
        hflush.sizes⟩

end

/-! ## Batches of a steady stream -/

section

variable (cfg : ParquetWriterConfig) {ws : List Input}

/-- As long as records keep coming only full batches are written, whatever their age. -/
theorem full_run (start : Instant) (hsteady : ∀ w ∈ ws, w.record?.isSome) :
    ∀ b ∈ ((machine cfg).run { lastFlush := start } ws).1.written,
      b.length = max cfg.rowGroupSize 1 := by
  induction ws using List.reverseRecOn with
  | nil => exact fun b hb => absurd hb List.not_mem_nil
  | append_singleton ws w ih =>
    have hold := ih fun w hw => hsteady w (List.mem_append_left _ hw)
    have hsunk := sunk_run cfg start ws
    rw [EventMachine.run_snoc_fst]
    generalize ((machine cfg).run { lastFlush := start } ws).1 = st at *
    cases w with
    | timeout now accepted =>
      exact absurd (hsteady _ (List.mem_append_right ws (List.mem_singleton_self _)))
        Bool.false_ne_true
    | record r now accepted =>
      simp only [machine]
      split
      · exact hold
      · next hf =>
        have hlen := (hsunk.kept (Bool.eq_false_of_not_eq_true hf)).2
        unfold onRecord
        dsimp only
        split
        · next hfull =>
          unfold State.flushBuffer
          rw [if_neg (by simp)]
          cases accepted with
          | false => exact hold
          | true =>
            intro b hb
            rcases List.mem_append.mp hb with hb | hb
            · exact hold b hb
            · rw [List.mem_singleton.mp hb, List.length_append, List.length_singleton]
              rw [List.length_append, List.length_singleton] at hfull
              omega
        · exact hold

theorem full_finish (start : Instant) (last closes : Bool)
    (hsteady : ∀ w ∈ ws, w.record?.isSome) :
    ∀ b ∈ (((machine cfg).run { lastFlush := start } ws).1.finish last closes).batches.dropLast,
      b.length = max cfg.rowGroupSize 1 := by
  have hfull := full_run cfg start hsteady
  unfold State.finish State.flushBuffer
  generalize ((machine cfg).run { lastFlush := start } ws).1 = st at *
  dsimp only
  split
  · exact fun b hb => hfull b (List.mem_of_mem_dropLast hb)
  · split
    · exact fun b hb => hfull b (List.mem_of_mem_dropLast hb)
    · cases last with
      | true =>
        intro b hb
        rw [if_pos rfl] at hb
        dsimp only at hb
        rw [List.dropLast_concat] at hb
        exact hfull b hb
      | false => exact fun b hb => hfull b (List.mem_of_mem_dropLast hb)

end

/-! ## What gets through the channel -/

section

variable {cfg : ParquetWriterConfig} {capacity : ℕ} {start : Instant} {ms : List Move}
  {sys : System} {os : List Event}

@[simp] theorem tookIn_append (os os' : List Event) :
    tookIn (os ++ os') = tookIn os ++ tookIn os' := List.filterMap_append

@[simp] theorem lostIn_append (os os' : List Event) :
    lostIn (os ++ os') = lostIn os ++ lostIn os' := List.filterMap_append

@[simp] theorem tookIn_lost (rs : List FinalRecord) : tookIn (rs.map .lost) = [] := by
  simp [tookIn, Event.took?, List.filterMap_map, Function.comp_def]

@[simp] theorem lostIn_lost (rs : List FinalRecord) : lostIn (rs.map .lost) = rs := by
  simp [lostIn, Event.lost?, List.filterMap_map, Function.comp_def]

@[simp] theorem tookIn_took (w : Input) (os : List Event) :
    tookIn (.took w :: os) = w :: tookIn os := rfl

@[simp] theorem lostIn_took (w : Input) (os : List Event) : lostIn (.took w :: os) = lostIn os :=
  rfl

/-- The writer is where its inputs have led it, and every record that was offered it has received,
is in the channel or is lost. -/
structure Piped (cfg : ParquetWriterConfig) (start : Instant) (ms : List Move) (sys : System)
    (os : List Event) : Prop where
  writer : ((machine cfg).run { lastFlush := start } (tookIn os)).1 = sys.writer
  records : ((tookIn os).filterMap Input.record? ++ (sys.queue ++ lostIn os)).Perm
    (ms.filterMap Move.offered?)

theorem receive_queue (sys : System) (now : Instant) (accepted : Bool) :
    (sys.receive now accepted).1.record?.toList ++ (sys.receive now accepted).2 = sys.queue := by
  unfold System.receive
  split
  · next hqueue => exact hqueue.symm
  · next r rest hqueue => exact hqueue.symm

/-- A step in which the writer works on an input. -/
theorem Piped.take (h : Piped cfg start ms sys os) (now : Instant) (accepted : Bool)
    (queue lost : List FinalRecord)
    (hqueue : (queue ++ lost).Perm (sys.receive now accepted).2) :
    Piped cfg start ms
      ⟨((machine cfg).step sys.writer (sys.receive now accepted).1).1, queue⟩
      (os ++ .took (sys.receive now accepted).1 :: lost.map .lost) := by
  have htook : tookIn (os ++ .took (sys.receive now accepted).1 :: lost.map .lost) =
      tookIn os ++ [(sys.receive now accepted).1] := by
    simp
  have hlost : lostIn (os ++ .took (sys.receive now accepted).1 :: lost.map .lost) =
      lostIn os ++ lost := by
    simp
  refine ⟨?_, ?_⟩
  · rw [htook, EventMachine.run_snoc_fst, h.writer]
  · refine List.Perm.trans ?_ h.records
    rw [htook, hlost, records_snoc, ← receive_queue sys now accepted, List.append_assoc,
      List.append_assoc]
    refine List.Perm.append_left _ (List.Perm.append_left _ ?_)
    refine (List.perm_append_comm.append_left queue).trans ?_
    rw [← List.append_assoc]
    exact hqueue.append_right _

theorem Piped.poll (h : Piped cfg start ms sys os) (now : Instant) (accepted : Bool) :
    Piped cfg start ms (poll cfg sys now accepted).1
      (os ++ (ParquetSink.poll cfg sys now accepted).2) := by
  unfold ParquetSink.poll
  split
  · rw [List.append_nil]
    exact h
  · dsimp only
    split
    · exact h.take now accepted [] _ (List.Perm.refl _)
    · exact h.take now accepted _ [] (by rw [List.append_nil])

theorem Piped.offer (h : Piped cfg start ms sys os) (r : FinalRecord) :
    Piped cfg start (ms ++ [.offer r]) (offer capacity sys r).1
      (os ++ (ParquetSink.offer capacity sys r).2) := by
  have hoffer := BoundedChannel.trySend_append capacity (!sys.writer.failed) sys.queue r
  unfold ParquetSink.offer
  generalize BoundedChannel.trySend capacity (!sys.writer.failed) sys.queue r = offered at *
  have hoffered : (ms ++ [Move.offer r]).filterMap Move.offered? =
      ms.filterMap Move.offered? ++ [r] := List.filterMap_append
  refine ⟨?_, ?_⟩
  · simpa using h.writer
  · rw [hoffered, tookIn_append, lostIn_append, tookIn_lost, lostIn_lost, List.append_nil]
    refine List.Perm.trans ?_ (h.records.append_right [r])
    rw [List.append_assoc, List.append_assoc]
    refine List.Perm.append_left _ ?_
    refine (List.perm_append_comm.append_left offered.1).trans ?_
    rw [← List.append_assoc, hoffer, List.append_assoc]
    exact List.perm_append_comm.append_left sys.queue

theorem piped_run (cfg : ParquetWriterConfig) (capacity : ℕ) (start : Instant) (ms : List Move) :
    let r := (system cfg capacity).run { writer := { lastFlush := start } } ms
    Piped cfg start ms r.1 r.2 := by
  refine (system cfg capacity).run_rule (fun ms sys os => Piped cfg start ms sys os) _
    ⟨rfl, List.Perm.refl _⟩ ?_ ms
  intro ms sys os m h
  cases m with
  | offer r => exact h.offer r
  | poll now accepted =>
    have hoffered : (ms ++ [Move.poll now accepted]).filterMap Move.offered? =
        ms.filterMap Move.offered? := by
      simp [Move.offered?]
    have hpoll := h.poll now accepted
    exact ⟨hpoll.writer, hoffered.symm ▸ hpoll.records⟩

theorem excused_step (sys : System) (m : Move) : Excused cfg capacity sys m := by
  intro hlost
  cases m with
  | offer r =>
    obtain ⟨x, hx⟩ := List.exists_mem_of_ne_nil _ hlost
    simp only [system, offer, lostIn_lost] at hx
    rcases BoundedChannel.full_of_trySend hx with hgone | hfull
    · exact Or.inl (by simpa [system, offer] using hgone)
    · exact Or.inr hfull
  | poll now accepted =>
    simp only [system, ParquetSink.poll] at hlost ⊢
    split at hlost
    · exact absurd rfl hlost
    · split at hlost
      · next hopen hfailed =>
        rw [if_neg hopen, if_pos hfailed]
        exact Or.inl hfailed
      · exact absurd rfl hlost

end

/-! ## The attempts in the file -/

def attempt (r : FinalRecord) : Key × Signature := (r.key, r.txSignature)

def attemptOf (reg : RegisterEvent) : Key × Signature := (reg.key, reg.signature)

/-- What the file says of the attempts registered, given what happened at the channel. -/
structure Recorded (cfg : ParquetWriterConfig) (is : List Matcher.Input) (os : List Event)
    (file : File) : Prop where
  own : ∀ r ∈ file.batches.flatten, attempt r ∈ (registrations is).map attemptOf
  once : (file.batches.flatten.map FinalRecord.key).Nodup
  all : file.broken = false →
    ((file.batches.flatten ++ lostIn os).map attempt).Perm ((registrations is).map attemptOf)
  missing : file.broken = true →
    ∃ reg ∈ registrations is, reg.key ∉ (file.batches.flatten ++ lostIn os).map FinalRecord.key
  closed : file.closed = true → file.broken = false
  sizes : ∀ b ∈ file.batches, b ≠ [] ∧ b.length ≤ max cfg.rowGroupSize 1
  full : (∀ w ∈ tookIn os, w.record?.isSome) → ∀ b ∈ file.batches.dropLast,
    b.length = max cfg.rowGroupSize 1

section

variable {is : List Matcher.Input}

/-- The row of an attempt. -/
theorem row_of_attempt (cfg : Matcher.MatcherConfig) (hd : Dispatched is) (now : Instant)
    {reg : RegisterEvent} (hreg : reg ∈ registrations is) :
    ∃ r, rowsOf reg.key (Matcher.runLoop cfg is now).2 = [r] ∧ attempt r = attemptOf reg := by
  obtain ⟨o, ho⟩ := Matcher.one_row cfg hd now hreg
  obtain ⟨r, hr, hverdict⟩ := List.map_eq_singleton_iff.mp ho
  have hkey : r.key = reg.key := by
    have hmem : r ∈ rowsOf reg.key (Matcher.runLoop cfg is now).2 := by
      rw [hr]
      exact List.mem_singleton_self r
    exact of_decide_eq_true (List.mem_filter.mp hmem).2
  exact ⟨r, hr, Prod.ext hkey (congrArg Prod.fst hverdict)⟩

theorem registered_of_row (cfg : Matcher.MatcherConfig) (hd : Dispatched is) (now : Instant)
    {r : FinalRecord} (hr : r ∈ finals (Matcher.runLoop cfg is now).2) :
    ∃ reg ∈ registrations is, attempt r = attemptOf reg := by
  obtain ⟨reg, hreg, hkey, -⟩ := Matcher.concluded_of_mem_finals cfg hd now hr
  obtain ⟨r', hrows, hattempt⟩ := row_of_attempt cfg hd now hreg
  have hmem : r ∈ rowsOf reg.key (Matcher.runLoop cfg is now).2 :=
    List.mem_filter.mpr ⟨hr, decide_eq_true hkey.symm⟩
  rw [hrows] at hmem
  exact ⟨reg, hreg, by rw [List.mem_singleton.mp hmem]; exact hattempt⟩

theorem finals_keys_nodup (cfg : Matcher.MatcherConfig) (hd : Dispatched is) (now : Instant) :
    ((finals (Matcher.runLoop cfg is now).2).map FinalRecord.key).Nodup := by
  refine List.nodup_iff_count_le_one.mpr fun k => ?_
  have hcount : List.count k ((finals (Matcher.runLoop cfg is now).2).map FinalRecord.key) =
      (rowsOf k (Matcher.runLoop cfg is now).2).length := by
    unfold rowsOf
    rw [List.count, List.countP_map, List.countP_eq_length_filter]
    exact congrArg List.length (List.filter_congr fun r _ => beq_eq_decide r.key k)
  rw [hcount]
  cases hrows : rowsOf k (Matcher.runLoop cfg is now).2 with
  | nil => exact Nat.zero_le 1
  | cons r rest =>
    have hmem : r ∈ rowsOf k (Matcher.runLoop cfg is now).2 := by
      rw [hrows]
      exact List.mem_cons_self
    obtain ⟨hfinal, hk⟩ := List.mem_filter.mp hmem
    obtain ⟨reg, hreg, hattempt⟩ := registered_of_row cfg hd now hfinal
    obtain ⟨r', hone, -⟩ := row_of_attempt cfg hd now hreg
    have hkey : reg.key = k := (congrArg Prod.fst hattempt).symm.trans (of_decide_eq_true hk)
    rw [hkey, hrows] at hone
    rw [hone]
    exact le_rfl

theorem attempts_perm (cfg : Matcher.MatcherConfig) (hd : Dispatched is) (now : Instant) :
    ((finals (Matcher.runLoop cfg is now).2).map attempt).Perm
      ((registrations is).map attemptOf) := by
  have hleft : ((finals (Matcher.runLoop cfg is now).2).map attempt).Nodup := by
    refine List.Nodup.of_map Prod.fst ?_
    rw [List.map_map]
    exact finals_keys_nodup cfg hd now
  have hright : ((registrations is).map attemptOf).Nodup := by
    refine List.Nodup.of_map Prod.fst ?_
    rw [List.map_map]
    exact hd.keys
  refine (List.perm_ext_iff_of_nodup hleft hright).mpr fun a => ?_
  constructor
  · intro ha
    obtain ⟨r, hr, rfl⟩ := List.mem_map.mp ha
    obtain ⟨reg, hreg, hattempt⟩ := registered_of_row cfg hd now hr
    exact List.mem_map.mpr ⟨reg, hreg, hattempt.symm⟩
  · intro ha
    obtain ⟨reg, hreg, rfl⟩ := List.mem_map.mp ha
    obtain ⟨r, hrows, hattempt⟩ := row_of_attempt cfg hd now hreg
    have hmem : r ∈ rowsOf reg.key (Matcher.runLoop cfg is now).2 := by
      rw [hrows]
      exact List.mem_singleton_self r
    exact List.mem_map.mpr ⟨r, List.mem_of_mem_filter hmem, hattempt⟩

/-- A record that is left out is neither in the file nor lost at the channel. -/
theorem key_notMem {rows rest lost : List FinalRecord} {r : FinalRecord}
    (hkeys : ((rows ++ r :: rest ++ lost).map FinalRecord.key).Nodup) :
    r.key ∉ (rows ++ lost).map FinalRecord.key := by
  rw [List.append_assoc, List.cons_append] at hkeys
  have hfront := (List.perm_middle.map FinalRecord.key).nodup_iff.mp hkeys
  intro hmem
  refine (List.nodup_cons.mp hfront).1 (List.map_subset _ ?_ hmem)
  exact List.append_subset.mpr ⟨List.subset_append_left _ _,
    List.Subset.trans (List.subset_append_right rest lost) (List.subset_append_right rows _)⟩

/-- From the matcher to the file. Unless a batch was refused the file has one row for each attempt
whose record the channel did not lose, and otherwise that of a further attempt is missing too. The
channel loses records only where it is full or the writer has left, and while records keep coming
only full batches are written. -/
theorem attempts_recorded (mcfg : Matcher.MatcherConfig) (hd : Dispatched is) (now : Instant)
    (cfg : ParquetWriterConfig) (capacity : ℕ) (start : Instant) (ms : List Move)
    (last closes : Bool)
    (hoffers : ms.filterMap Move.offered? = finals (Matcher.runLoop mcfg is now).2) :
    let r := (system cfg capacity).run { writer := { lastFlush := start } } ms
    (system cfg capacity).Along (Excused cfg capacity) { writer := { lastFlush := start } } ms ∧
      (r.1.queue = [] → Recorded cfg is r.2 (r.1.writer.finish last closes)) := by
  intro r
  have hpiped := piped_run cfg capacity start ms
  refine ⟨fun _ _ _ _ => excused_step _ _, fun hdrained => ?_⟩
  have hfiled := (sunk_run cfg start (tookIn r.2)).finish last closes
  have hfull : (∀ w ∈ tookIn r.2, w.record?.isSome) → _ := full_finish cfg start last closes
  rw [hpiped.writer] at hfiled hfull
  have hrecords := hpiped.records
  rw [hdrained, List.nil_append, hoffers] at hrecords
  have hkeys := (hrecords.map FinalRecord.key).nodup_iff.mpr (finals_keys_nodup mcfg hd now)
  refine ⟨fun r hr => ?_, ?_, fun hwhole => ?_, fun hbroken => ?_, hfiled.closed, hfiled.sizes,
    hfull⟩
  · have hfinal := hrecords.subset (List.mem_append_left _ (hfiled.part.subset hr))
    obtain ⟨reg, hreg, hattempt⟩ := registered_of_row mcfg hd now hfinal
    exact List.mem_map.mpr ⟨reg, hreg, hattempt.symm⟩
  · have hsub := hfiled.part.sublist.trans (List.sublist_append_left _ (lostIn r.2))
    exact hkeys.sublist (hsub.map FinalRecord.key)
  · rw [hfiled.all hwhole]
    exact (hrecords.map attempt).trans (attempts_perm mcfg hd now)
  · obtain ⟨rest, hrest⟩ := hfiled.part
    cases rest with
    | nil =>
      rw [List.append_nil] at hrest
      exact absurd hrest (hfiled.missing hbroken)
    | cons r rest =>
      have hr := hrecords.subset (List.mem_append_left _ (hrest ▸ List.mem_append_right _
        List.mem_cons_self))
      obtain ⟨reg, hreg, hattempt⟩ := registered_of_row mcfg hd now hr
      have hkey : r.key = reg.key := congrArg Prod.fst hattempt
      rw [← hrest] at hkeys
      exact ⟨reg, hreg, hkey ▸ key_notMem hkeys⟩

/-- Three attempts in batches of two, through a channel of two: it loses one. -/
def sampleMoves (capacity : ℕ) (accepted : Bool) : List Move :=
  (finals (Matcher.runLoop Matcher.plainConfig Matcher.resolvedRun 2).2).map Move.offer ++
    List.replicate capacity (.poll 3 accepted)

theorem attempts_recorded_sample :
    let r := (system ⟨2, 100⟩ 2).run { writer := { lastFlush := 0 } } (sampleMoves 2 true)
    (lostIn r.2).length = 1 ∧ (r.1.writer.finish true true).closed = true ∧
      Recorded ⟨2, 100⟩ Matcher.resolvedRun r.2 (r.1.writer.finish true true) :=
  ⟨by decide +kernel, by decide +kernel, (attempts_recorded Matcher.plainConfig (by decide) 2
    ⟨2, 100⟩ 2 0 (sampleMoves 2 true) true true (by decide +kernel)).2 (by decide +kernel)⟩

end

end SolanaBench.FanOut.ParquetSink
