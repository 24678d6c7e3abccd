import SolanaBench.FanOut.Merger
import SolanaBench.FanOut.ObserverStream
import SolanaBench.Lib.Pipe

/-! The merger and the observer behind it. Both feeds bring the slots of one chain in order;
whichever of them is ahead, the observer fires the scheduled ticks of each slot in order, each
once and with the hashes up to it. -/
namespace SolanaBench.FanOut.MergedTicks

open Merger (Arrival shown)
open Observer (TickSchedule triggers)

/-- The observer takes the next merged entry, or gets none in time; another thread adds
signatures to look for. -/
def intake : Intake MergedEntry (Instant ⊕ Signature) Instant Observer.Input where
  recv now m := .entry m now
  aside
    | .inl now => .timeout now
    | .inr sig => .pendingSig sig
  passed?
    | .entry m _ => some m
    | .timeout _ => none
    | .pendingSig _ => none
  passed_recv _ _ := rfl
  passed_aside b := by cases b <;> rfl

abbrev State := Piped Merger.State Arrival MergedEntry Observer.State Observer.Input

abbrev Input := PipeInput Arrival Instant (Instant ⊕ Signature)

def machine (sched : TickSchedule) : EventMachine State Input Observer.Output :=
  Merger.machine.pipe some (Observer.machine sched) intake

def start (startSlot : ℕ) (now : Instant) (cache : Option SlotHashCache) : State where
  upstream := {}
  downstream := Observer.start startSlot now cache

/-- The entries of the slots, one after the other. -/
def stream (chain : List PohSlot) : List (ℕ × PohEntry) :=
  chain.flatMap fun s => s.entries.map fun e => (s.slot, e)

/-- Each feed has brought a first part of the chain, and none is more than a window behind. -/
structure Fed (chain : List PohSlot) (startSlot : ℕ) (received : List Arrival) : Prop where
  ascending : chain.Pairwise fun a b => a.slot < b.slot
  reached : ∀ s ∈ chain, startSlot ≤ s.slot + 64
  inOrder : ∀ source, feedOf source (received.map fun i => (i.1, shown i.2)) <+: stream chain
  inWindow : Merger.InWindow received

/-- The triggers of a slot, each with its tick and the hashes of the slot so far. -/
def fired (k : ℕ) (os : List Observer.Output) : List (ℕ × ℕ) :=
  ((triggers os).filter fun ev => ev.slot = k).map fun ev => (ev.tick, ev.cumulativeHashesInSlot)

def scheduled (sched : TickSchedule) (k : ℕ) : List (ℕ × ℕ) :=
  ((List.range' 1 64).filter fun n => (k, n) ∈ sched).map fun n => (n, 62_500 * n)

/-- Some feed has brought the last entry of the slot. -/
def Complete (slot : PohSlot) (received : List Arrival) : Prop :=
  ∃ i ∈ received, i.2.slot = slot.slot ∧ slot.entries.getLast? = some i.2.pohEntry

/-- What has been fired of a slot. -/
structure Fires (sched : TickSchedule) (slot : PohSlot) (st : State) (os : List Observer.Output) :
    Prop where
  inOrder : fired slot.slot os <+: scheduled sched slot.slot
  all : st.queue = [] → Complete slot st.given → fired slot.slot os = scheduled sched slot.slot

/-! ## The stream -/

section Stream

variable {chain : List PohSlot} {slot : PohSlot}

theorem stream_cons (s : PohSlot) (chain : List PohSlot) :
    stream (s :: chain) = (s.entries.map fun e => (s.slot, e)) ++ stream chain := List.flatMap_cons ..

theorem exists_slot_of_mem_stream {x : ℕ × PohEntry} (h : x ∈ stream chain) :
    ∃ s ∈ chain, s.slot = x.1 := by
  obtain ⟨s, hs, hx⟩ := List.mem_flatMap.mp h
  obtain ⟨e, -, rfl⟩ := List.mem_map.mp hx
  exact ⟨s, hs, rfl⟩

theorem stream_keys_nodup (h : chain.Pairwise fun a b => a.slot < b.slot) :
    ((stream chain).map fun x => (x.1, x.2.hash)).Nodup := by
  induction chain with
  | nil => exact List.nodup_nil
  | cons s chain ih =>
    obtain ⟨hs, hchain⟩ := List.pairwise_cons.mp h
    rw [stream_cons, List.map_append, List.map_map]
    refine List.nodup_append.mpr ⟨?_, ih hchain, fun key hkey key' hkey' heq => ?_⟩
    · have hhash : (s.entries.map PohEntry.hash).Nodup := s.nodup
      refine List.Nodup.of_map Prod.snd ?_
      rw [List.map_map]
      exact hhash
    · obtain ⟨e, -, rfl⟩ := List.mem_map.mp hkey
      obtain ⟨x, hx, rfl⟩ := List.mem_map.mp hkey'
      obtain ⟨t, ht, hslot⟩ := exists_slot_of_mem_stream hx
      have hsame : s.slot = x.1 := congrArg Prod.fst heq
      have hlt := hs t ht
      omega

theorem stream_ascending (h : chain.Pairwise fun a b => a.slot < b.slot) :
    (stream chain).Pairwise fun x y => x.1 ≤ y.1 := by
  induction chain with
  | nil => exact List.Pairwise.nil
  | cons s chain ih =>
    obtain ⟨hs, hchain⟩ := List.pairwise_cons.mp h
    rw [stream_cons]
    refine List.pairwise_append.mpr ⟨?_, ih hchain, fun x hx y hy => ?_⟩
    · exact List.pairwise_map.mpr (List.pairwise_of_forall fun _ _ => Nat.le_refl _)
    · obtain ⟨e, -, rfl⟩ := List.mem_map.mp hx
      obtain ⟨t, ht, hslot⟩ := exists_slot_of_mem_stream hy
      have hlt := hs t ht
      dsimp only
      omega

/-- A slot's part of the stream is the slot. -/
theorem filter_stream (h : chain.Pairwise fun a b => a.slot < b.slot) (hslot : slot ∈ chain) :
    (stream chain).filter (fun x => decide (x.1 = slot.slot)) =
      slot.entries.map fun e => (slot.slot, e) := by
  induction chain with
  | nil => exact absurd hslot List.not_mem_nil
  | cons s chain ih =>
    obtain ⟨hs, hchain⟩ := List.pairwise_cons.mp h
    rw [stream_cons, List.filter_append]
    rcases List.mem_cons.mp hslot with rfl | hmem
    · have hself : (slot.entries.map fun e => (slot.slot, e)).filter
          (fun x => decide (x.1 = slot.slot)) = slot.entries.map fun e => (slot.slot, e) := by
        refine List.filter_eq_self.mpr fun x hx => ?_
        obtain ⟨e, -, rfl⟩ := List.mem_map.mp hx
        exact decide_eq_true rfl
      have hrest : (stream chain).filter (fun x => decide (x.1 = slot.slot)) = [] := by
        refine List.filter_eq_nil_iff.mpr fun x hx => ?_
        obtain ⟨t, ht, hx'⟩ := exists_slot_of_mem_stream hx
        have hlt := hs t ht
        simp only [decide_eq_true_eq]
        omega
      rw [hself, hrest, List.append_nil]
    · have hnone : (s.entries.map fun e => (s.slot, e)).filter
          (fun x => decide (x.1 = slot.slot)) = [] := by
        refine List.filter_eq_nil_iff.mpr fun x hx => ?_
        obtain ⟨e, -, rfl⟩ := List.mem_map.mp hx
        have hlt := hs slot hmem
        simp only [decide_eq_true_eq]
        omega
      rw [hnone, ih hchain hmem]
      rfl

end Stream

/-! ## What a slot's entries fire -/

open WindowRule

/-- The ticks of a whole slot that are scheduled. -/
theorem scheduled_of_entries (sched : TickSchedule) (slot : PohSlot) :
    ((tickRule.machine.run {} slot.entries).2.filter
      fun x => decide ((slot.slot, x.2.1) ∈ sched)).map Prod.snd = scheduled sched slot.slot := by
  have hruns := run_windows slot.ticks {} rfl (by simp) slot.nodup
  simp only [Nat.zero_add] at hruns
  have hticks : (slot.ticks.zipIdx.map Prod.snd).map Nat.succ = List.range' 1 64 := by
    rw [List.zipIdx_map_snd, slot.length_ticks]
    rfl
  unfold PohSlot.entries
  rw [hruns, scheduled, ← hticks]
  simp only [List.filter_map, List.map_map]
  rfl

/-! ## The two threads -/

section Chain

variable {chain : List PohSlot} {slot : PohSlot} {sched : TickSchedule} {startSlot : ℕ}
  {now : Instant} {cache : Option SlotHashCache} {st : State} {os : List Observer.Output}

/-- The entries that the observer has taken. -/
def handled (st : State) : List MergedEntry := st.taken.filterMap intake.passed?

theorem Fed.emitted (h : Fed chain startSlot st.given) :
    ((Merger.emitted st.given).map fun m => shown m.observation) <+: stream chain ∧
      ∀ i ∈ st.given, shown i.2 ∈ (Merger.emitted st.given).map fun m => shown m.observation :=
  Merger.emitted_prefix h.inWindow (stream_keys_nodup h.ascending) h.inOrder

abbrev Joined (sched : TickSchedule) (startSlot : ℕ) (now : Instant) (cache : Option SlotHashCache)
    (st : State) (os : List Observer.Output) : Prop :=
  EventMachine.Linked Merger.machine some (Observer.machine sched) intake {}
    (Observer.start startSlot now cache) st os

theorem emitted_eq (hl : Joined sched startSlot now cache st os) :
    Merger.emitted st.given = handled st ++ st.queue := by
  have hpassed := hl.passed
  rw [List.filterMap_some] at hpassed
  exact hpassed

theorem Fed.handled_prefix (h : Fed chain startSlot st.given)
    (hl : Joined sched startSlot now cache st os) :
    ((handled st).map fun m => shown m.observation) <+: stream chain := by
  refine List.IsPrefix.trans ?_ h.emitted.1
  rw [emitted_eq hl, List.map_append]
  exact List.prefix_append _ _

theorem entryOf?_eq (k : ℕ) (is : List Observer.Input) : is.filterMap (Observer.Input.entryOf? k) =
    (((is.filterMap intake.passed?).map fun m => shown m.observation).filter
      fun x => decide (x.1 = k)).map Prod.snd := by
  induction is with
  | nil => rfl
  | cons i is ih =>
    cases i with
    | entry m now =>
      have hcons : (Observer.Input.entry m now :: is).filterMap intake.passed? =
          m :: is.filterMap intake.passed? := rfl
      rw [hcons, List.map_cons, List.filter_cons, List.filterMap_cons, ih]
      unfold Observer.Input.entryOf?
      by_cases hm : m.observation.slot = k <;> simp [shown, hm]
    | timeout now => exact ih
    | pendingSig sig => exact ih

/-- Of each slot of the chain the observer has got a first part. -/
theorem Fed.slot_prefix (h : Fed chain startSlot st.given)
    (hl : Joined sched startSlot now cache st os) (hslot : slot ∈ chain) :
    st.taken.filterMap (Observer.Input.entryOf? slot.slot) <+: slot.entries := by
  have hpart := ((h.handled_prefix hl).filter fun x => decide (x.1 = slot.slot)).map Prod.snd
  have hself : slot.entries.map (Prod.snd ∘ fun e => (slot.slot, e)) = slot.entries := List.map_id _
  rw [filter_stream h.ascending hslot, List.map_map, hself] at hpart
  rw [entryOf?_eq]
  exact hpart

/-- Until the last of them it has seen no later slot. -/
theorem Fed.inReach (h : Fed chain startSlot st.given)
    (hl : Joined sched startSlot now cache st os) (hslot : slot ∈ chain) :
    Observer.InReach slot.slot startSlot st.taken := by
  intro pre i post hsplit hentry k hk
  rcases List.mem_cons.mp hk with rfl | hk
  · exact h.reached slot hslot
  · have hasc := (stream_ascending h.ascending).sublist (h.handled_prefix hl).sublist
    obtain ⟨j, hj, hjk⟩ := List.mem_filterMap.mp hk
    unfold handled at hasc
    rw [hsplit, List.filterMap_append, List.map_append] at hasc
    have hcross := (List.pairwise_append.mp hasc).2.2
    cases j with
    | timeout now => cases hjk
    | pendingSig sig => cases hjk
    | entry m now =>
      obtain rfl : m.observation.slot = k := Option.some.inj hjk
      cases i with
      | timeout now => cases hentry
      | pendingSig sig => cases hentry
      | entry m' now' =>
        have hslot' : m'.observation.slot = slot.slot := by
          by_contra hne
          simp [Observer.Input.entryOf?, hne] at hentry
        have hle := hcross (shown m.observation)
          (List.mem_map_of_mem (List.mem_filterMap.mpr ⟨_, hj, rfl⟩)) (shown m'.observation)
          (List.mem_map_of_mem (List.mem_filterMap.mpr ⟨_, List.mem_cons_self, rfl⟩))
        change m.observation.slot ≤ m'.observation.slot at hle
        omega

theorem Fed.fired_eq (h : Fed chain startSlot st.given)
    (hl : Joined sched startSlot now cache st os) (hslot : slot ∈ chain) :
    fired slot.slot os = ((tickRule.machine.run {}
      (st.taken.filterMap (Observer.Input.entryOf? slot.slot))).2.filter
        fun x => decide ((slot.slot, x.2.1) ∈ sched)).map Prod.snd := by
  have hdelivers : Observer.Delivers slot st.taken := fun i hi e he =>
    (h.slot_prefix hl hslot).subset (List.mem_filterMap.mpr ⟨i, hi, he⟩)
  unfold fired
  rw [hl.outputs, Observer.triggers_run, Observer.readings_run hdelivers (h.inReach hl hslot)]

/-- With the queue empty, a slot that some feed has brought whole has come whole. -/
theorem Fed.slot_whole (h : Fed chain startSlot st.given)
    (hl : Joined sched startSlot now cache st os) (hslot : slot ∈ chain) (hqueue : st.queue = [])
    (hcomplete : Complete slot st.given) :
    st.taken.filterMap (Observer.Input.entryOf? slot.slot) = slot.entries := by
  obtain ⟨i, hi, hislot, hlast⟩ := hcomplete
  have hemitted := h.emitted.2 i hi
  rw [emitted_eq hl, hqueue, List.append_nil] at hemitted
  have hmem : i.2.pohEntry ∈ st.taken.filterMap (Observer.Input.entryOf? slot.slot) := by
    rw [entryOf?_eq]
    refine List.mem_map.mpr ⟨shown i.2, List.mem_filter.mpr ⟨hemitted, ?_⟩, rfl⟩
    exact decide_eq_true hislot
  obtain ⟨rest, hrest⟩ := h.slot_prefix hl hslot
  rcases List.eq_nil_or_concat rest with rfl | ⟨rest, e, rfl⟩
  · rw [List.append_nil] at hrest
    exact hrest
  · -- the last entry would come twice
    have hnodup : slot.entries.Nodup := List.Nodup.of_map _ slot.nodup
    rw [List.concat_eq_append, ← List.append_assoc] at hrest
    rw [← hrest, List.getLast?_concat] at hlast
    rw [← hrest] at hnodup
    have hdisjoint := (List.nodup_append.mp hnodup).2.2
    exact absurd (Option.some.inj hlast).symm
      (hdisjoint _ (List.mem_append_left _ hmem) e (List.mem_singleton_self e))

end Chain

/-- From the two feeds to the triggers: whichever feed is ahead, each slot's scheduled ticks fire
in order, each once, and all of them once the slot has come through. -/
theorem merged_ticks_fire (sched : TickSchedule) (chain : List PohSlot) (startSlot : ℕ)
    (now : Instant) (cache : Option SlotHashCache) (xs : List Input)
    (h : Fed chain startSlot ((machine sched).run (start startSlot now cache) xs).1.given)
    (slot : PohSlot) (hslot : slot ∈ chain) :
    Fires sched slot ((machine sched).run (start startSlot now cache) xs).1
      ((machine sched).run (start startSlot now cache) xs).2 := by
  have hl := EventMachine.linked_run Merger.machine some (Observer.machine sched) intake {}
    (Observer.start startSlot now cache) xs
  change Joined sched startSlot now cache ((machine sched).run (start startSlot now cache) xs).1
    ((machine sched).run (start startSlot now cache) xs).2 at hl
  generalize ((machine sched).run (start startSlot now cache) xs).1 = st at *
  have hfired := h.fired_eq hl hslot
  refine ⟨?_, fun hqueue hcomplete => ?_⟩
  · obtain ⟨rest, hrest⟩ := h.slot_prefix hl hslot
    rw [hfired, ← scheduled_of_entries, ← hrest, EventMachine.run_append_snd]
    exact ((List.prefix_append _ _).filter _).map _
  · rw [hfired, h.slot_whole hl hslot hqueue hcomplete]
    exact scheduled_of_entries sched slot

/-! The first ticks of slot 7 from both feeds, the second one a step behind. -/

def sampleFeeds : List Input :=
  [.up (.shredStream, tickEntry 7 0), .up (.shredStream, tickEntry 7 1), .down 1,
    .up (.yellowstone, tickEntry 7 0), .down 2, .aside (.inl 3), .up (.yellowstone, tickEntry 7 1),
    .up (.yellowstone, tickEntry 7 2), .up (.shredStream, tickEntry 7 2), .down 4]

def sampleResult : State × List Observer.Output := (machine {(7, 2)}).run (start 7 0 none) sampleFeeds

theorem merged_ticks_fire_sample :
    Fires {(7, 2)} emptySlot sampleResult.1 sampleResult.2 ∧
      fired 7 sampleResult.2 = [(2, 125_000)] := by
  have hfed : Fed [emptySlot] 7 sampleResult.1.given := by
    refine ⟨List.pairwise_singleton _ _, by decide, fun source => ?_, by decide +kernel⟩
    cases source <;> decide +kernel
  exact ⟨merged_ticks_fire {(7, 2)} [emptySlot] 7 0 none sampleFeeds hfed emptySlot
    (List.mem_singleton_self _), by decide +kernel⟩

end SolanaBench.FanOut.MergedTicks
