import SolanaBench.TickTriggerBench.ObserverStream

/-! The rows of the report: the distance from a trigger to the inclusion of its transaction, once
in ticks and once in hashes. -/
namespace SolanaBench.TickTriggerBench

/-- The leader of each slot of the epoch. -/
abbrev LeaderCache := AList (fun _ : ℕ => Pubkey)

/-- `duration_since(earlier).as_nanos() as u64`. -/
def nanosSince (later earlier : Instant) : ℕ :=
  Instant.saturatingDurationSince later earlier % 2 ^ 64

structure Row where
  scheduleSlot : ℕ
  scheduleTick : ℕ
  scheduleLeader : Option Pubkey
  txSignature : Signature
  triggerObservedAtNs : ℕ
  sendAtNs : ℕ
  responseAtNs : ℕ
  sendError : Option String
  observedAtNs : Option ℕ
  observedSlot : Option ℕ
  observedEntryIndex : Option U32
  observedTickInSlot : Option ℕ
  observedCumulativeHashesInSlot : Option ℕ
  observedLeader : Option Pubkey
  tickDelta : Option ℕ
  slotDelta : Option ℕ
  timeDeltaNs : Option ℕ
  hashDelta : Option ℕ
  leaderChanged : Option Bool
  status : Status
  deriving DecidableEq, Repr

/-- Every builder has a value for each row. -/
abbrev Builders := List Row

namespace Builders

def HASHES_PER_SLOT : ℕ := 64 * 62_500

/-- In `u32`, the cast of `slot_diff` included. -/
def tickInTargetFrame (tick slotDiff : ℕ) : ℕ :=
  (tick + slotDiff % 2 ^ 32 * 64 % 2 ^ 32) % 2 ^ 32

def hashDelta (hashes slotDiff scheduleTick : ℕ) : ℕ :=
  satAddU64 (satMulU64 slotDiff HASHES_PER_SLOT) hashes - scheduleTick * 62_500

/-- The columns of the inclusion are null where there is no match. -/
def append (b : Builders) (r : FinalRecord) (leaderCache : LeaderCache) (anchor : Instant) :
    Builders :=
  let s := r.send
  let slotDiff (m : MatchEvent) := m.observedSlot - s.scheduleSlot
  b ++ [
    { scheduleSlot := s.scheduleSlot
      scheduleTick := s.scheduleTick
      scheduleLeader := leaderCache.lookup s.scheduleSlot
      txSignature := s.signature
      triggerObservedAtNs := nanosSince s.triggerObservedAt anchor
      sendAtNs := nanosSince s.sendAt anchor
      responseAtNs := nanosSince s.responseAt anchor
      sendError := s.error
      observedAtNs := r.matchEvent.map fun m => nanosSince m.observedAt anchor
      observedSlot := r.matchEvent.map MatchEvent.observedSlot
      observedEntryIndex := r.matchEvent.map MatchEvent.observedEntryIndex
      observedTickInSlot := r.matchEvent.bind MatchEvent.observedTickInSlot
      observedCumulativeHashesInSlot := r.matchEvent.bind MatchEvent.observedCumulativeHashesInSlot
      observedLeader := r.matchEvent.bind fun m => leaderCache.lookup m.observedSlot
      tickDelta := r.matchEvent.bind fun m => m.observedTickInSlot.map fun tick =>
        tickInTargetFrame tick (slotDiff m) - s.scheduleTick
      slotDelta := r.matchEvent.map fun m => slotDiff m % 2 ^ 32
      timeDeltaNs := r.matchEvent.map fun m => nanosSince m.observedAt s.sendAt
      hashDelta := r.matchEvent.bind fun m => m.observedCumulativeHashesInSlot.map fun hashes =>
        hashDelta hashes (slotDiff m) s.scheduleTick
      leaderChanged := r.matchEvent.bind fun m =>
        (leaderCache.lookup s.scheduleSlot).bind fun a =>
          (leaderCache.lookup m.observedSlot).map fun b => a != b
      status := r.status }]

section

variable {tick hashes slotDiff : ℕ}

/-- Nothing overflows on the way and nothing is cut off. -/
theorem tickInTargetFrame_eq (htick : tick ≤ 64) (hgap : 64 * slotDiff + 64 < 2 ^ 32) :
    tickInTargetFrame tick slotDiff = tick + slotDiff * 64 := by
  unfold tickInTargetFrame
  omega

theorem hashDelta_eq (htick : tick ≤ 64) (hhashes : hashes < (tick + 1) * 62_500)
    (hgap : 64 * slotDiff + 64 < 2 ^ 32) (scheduleTick : ℕ) :
    hashDelta hashes slotDiff scheduleTick =
      slotDiff * 4_000_000 + hashes - scheduleTick * 62_500 := by
  unfold hashDelta satAddU64 satMulU64 HASHES_PER_SLOT U64.MAX
  omega

/-- The hashes are within the tick, also where both distances saturate. -/
theorem hashDelta_within (htick : tick ≤ 64) (hle : tick * 62_500 ≤ hashes)
    (hlt : hashes < (tick + 1) * 62_500) (hgap : 64 * slotDiff + 64 < 2 ^ 32) (scheduleTick : ℕ) :
    (tickInTargetFrame tick slotDiff - scheduleTick) * 62_500 ≤
        hashDelta hashes slotDiff scheduleTick ∧
      hashDelta hashes slotDiff scheduleTick <
        (tickInTargetFrame tick slotDiff - scheduleTick + 1) * 62_500 := by
  rw [tickInTargetFrame_eq htick hgap, hashDelta_eq htick hlt hgap]
  omega

end

end Builders

open Observer

/-- The row says the same of the inclusion in ticks and in hashes, and `u32` holds all of it. -/
structure Agrees (send : SendEvent) (ev : MatchEvent) (tick : ℕ) (row : Row) : Prop where
  cast_lt : ev.observedSlot - send.scheduleSlot < 2 ^ 32
  product_lt : (ev.observedSlot - send.scheduleSlot) * 64 < 2 ^ 32
  sum_lt : tick + (ev.observedSlot - send.scheduleSlot) * 64 < 2 ^ 32
  slotDelta_eq : row.slotDelta = some (ev.observedSlot - send.scheduleSlot)
  within : ∃ tickDelta hashDelta, row.tickDelta = some tickDelta ∧ row.hashDelta = some hashDelta ∧
    tickDelta * 62_500 ≤ hashDelta ∧ hashDelta < (tickDelta + 1) * 62_500

theorem append_agrees {ev : MatchEvent} {tick hashes : ℕ} (h : ev.InTick tick hashes)
    (send : SendEvent) (status : Status) (leaderCache : LeaderCache) (anchor : Instant)
    (hgap : 64 * (ev.observedSlot - send.scheduleSlot) + 64 < 2 ^ 32) (b : Builders) :
    ∃ row, b.append ⟨send, some ev, status⟩ leaderCache anchor = b ++ [row] ∧
      Agrees send ev tick row := by
  have htick := h.tick_le
  have hcast : ev.observedSlot - send.scheduleSlot < 2 ^ 32 := by omega
  refine ⟨_, rfl, hcast, by omega, by omega, ?_, ?_⟩
  · exact congrArg some (Nat.mod_eq_of_lt hcast)
  · refine ⟨_, _, congrArg (Option.map _) h.tick_eq, congrArg (Option.map _) h.hashes_eq, ?_⟩
    exact Builders.hashDelta_within h.tick_le h.le_hashes h.hashes_lt hgap send.scheduleTick

/-- The match events of a slot that comes in order, and the rows that they complete. -/
theorem deltas_agree (sched : TickSchedule) (slot : PohSlot) (is : List Observer.Input)
    (hstream : Streams sched slot is) (hpos : ∀ e ∈ slot.entries, 1 ≤ e.numHashes)
    (ev : MatchEvent) (hmatched : .send (.matched ev) ∈ ((machine sched).run {} is).2)
    (hslot : ev.observedSlot = slot.slot) :
    ∃ tick hashes, ev.InTick tick hashes ∧
      ∀ (send : SendEvent) (status : Status) (leaderCache : LeaderCache) (anchor : Instant)
        (b : Builders), 64 * (ev.observedSlot - send.scheduleSlot) + 64 < 2 ^ 32 →
          ∃ row, b.append ⟨send, some ev, status⟩ leaderCache anchor = b ++ [row] ∧
            Agrees send ev tick row := by
  obtain ⟨tick, hashes, h⟩ := match_inTick hstream hpos hmatched hslot
  exact ⟨tick, hashes, h, fun send status leaderCache anchor b hgap =>
    append_agrees h send status leaderCache anchor hgap b⟩

/-- Slot 7 with a transaction in its first tick. -/
def transferSlot : PohSlot where
  slot := 7
  ticks :=
    { body := [⟨100, 500, 1⟩]
      close := ⟨0, 62_000, 0⟩
      body_closes := by decide
      close_closes := rfl
      weight_eq := rfl } :: (List.range' 1 63).map emptyTick
  length_ticks := rfl
  nodup := by decide

/-- Its first entry, after one of slot 6. -/
def transferStream : List Observer.Input :=
  [.entry (tickEntry 6 0), .pendingSig 5,
    .entry ⟨.shredStream, 1, 7, 0, 500, 100, 1, [5], none, none⟩]

def transferMatch : MatchEvent := ⟨5, 1, 7, 0, some 0, some 500⟩

theorem streams_transferStream : Streams ∅ transferSlot transferStream where
  order := ⟨[⟨100, 500, 1⟩], ⟨_, rfl⟩, .next .nil _⟩
  warm := by decide
  kept := by
    have hkept : (machine ∅).Along (fun s i => ¬Evicts 7 s i) {} transferStream := by decide
    exact fun pre i post hsplit _ => hkept pre i post hsplit

/-- It was sent at tick 3 of slot 5 and is included 125 ticks later. -/
theorem deltas_agree_transfer : ∃ row,
    Builders.append [] ⟨⟨5, 5, 3, 0, 0, 0, none⟩, some transferMatch, .observed⟩ ∅ 0 = [row] ∧
      Agrees ⟨5, 5, 3, 0, 0, 0, none⟩ transferMatch 0 row := by
  have hrun : ((machine ∅).run {} transferStream).2 = [.send (.matched transferMatch)] := by
    decide +kernel
  obtain ⟨tick, hashes, h, hrow⟩ := deltas_agree ∅ transferSlot transferStream
    streams_transferStream (by decide) transferMatch (hrun ▸ List.mem_singleton_self _) rfl
  obtain rfl : 0 = tick := Option.some.inj h.tick_eq
  exact hrow ⟨5, 5, 3, 0, 0, 0, none⟩ .observed ∅ 0 [] (by decide)

end SolanaBench.TickTriggerBench
