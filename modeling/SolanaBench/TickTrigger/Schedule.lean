import Mathlib.Data.Finset.Dedup
import Mathlib.Data.Finset.Card
import SolanaBench.TickTrigger.Preparer

/-! The schedule generator: chunks of slots with as many distinct random ticks in each as
there are triggers per slot. The random stream is the list of ticks that are drawn from it. -/
namespace SolanaBench.TickTrigger.ScheduleGen

open Preparer

/-- A draw of `random_range(1u8..=64u8)`. -/
abbrev Draw := {tick : ℕ // 1 ≤ tick ∧ tick ≤ 64}

/-- The random generator is the stream of draws, which is passed along. -/
structure Schedule where
  nextSlot : ℕ
  chunkSize : ℕ
  triggersPerSlot : ℕ
  deriving DecidableEq, Repr

namespace Schedule

def new (startSlot chunkSize triggersPerSlot : ℕ) : Schedule where
  nextSlot := startSlot
  chunkSize := max chunkSize 1
  triggersPerSlot := max triggersPerSlot 1

/-- The `while` loop that picks the ticks of a slot; `none` where the draws run out before it
ends. -/
def pick (triggersPerSlot : ℕ) (picked : List Draw) : List Draw → Option (List Draw × List Draw)
  | [] => if picked.length < triggersPerSlot ∧ picked.length < 64 then none else some (picked, [])
  | tick :: draws =>
    if picked.length < triggersPerSlot ∧ picked.length < 64 then
      if tick ∈ picked then pick triggersPerSlot picked draws
      else pick triggersPerSlot (picked ++ [tick]) draws
    else some (picked, tick :: draws)

/-- The slots at some offsets from `next_slot`. -/
def fill (s : Schedule) : List ℕ → List Draw → Option (List ScheduleEntry × List Draw)
  | [], draws => some ([], draws)
  | offset :: offsets, draws =>
    match pick s.triggersPerSlot [] draws with
    | none => none
    | some (picked, draws) =>
      let slot := (s.nextSlot + offset) % 2 ^ 64
      (fill s offsets draws).map fun r => (picked.map (fun tick => ⟨slot, tick.1⟩) ++ r.1, r.2)

def nextChunk (s : Schedule) (draws : List Draw) :
    Option (List ScheduleEntry × Schedule × List Draw) :=
  (s.fill (List.range s.chunkSize) draws).map fun r =>
    (r.1, { s with nextSlot := satAddU64 s.nextSlot s.chunkSize }, r.2)

/-- The concatenation of the chunks of `n` calls. -/
def chunks : ℕ → Schedule → List Draw → Option (List ScheduleEntry × Schedule × List Draw)
  | 0, s, draws => some ([], s, draws)
  | n + 1, s, draws =>
    match s.nextChunk draws with
    | none => none
    | some (out, s, draws) => (chunks n s draws).map fun r => (out ++ r.1, r.2)

end Schedule

/-! ## The picking loop -/

section

variable {triggersPerSlot : ℕ} {picked draws rest p : List Draw}

theorem Schedule.pick_spec (hnd : picked.Nodup) (hlen : picked.length ≤ min triggersPerSlot 64)
    (h : pick triggersPerSlot picked draws = some (p, rest)) :
    p.Nodup ∧ p.length = min triggersPerSlot 64 := by
  induction draws generalizing picked with
  | nil =>
    unfold pick at h
    split at h
    · cases h
    · cases h
      exact ⟨hnd, by omega⟩
  | cons tick draws ih =>
    unfold pick at h
    split at h
    · split at h
      · exact ih hnd hlen h
      · next hnew =>
        refine ih (List.nodup_append.mpr ⟨hnd, List.nodup_singleton tick, ?_⟩) ?_ h
        · rintro x hx y hy rfl
          exact hnew (List.mem_singleton.mp hy ▸ hx)
        · rw [List.length_append, List.length_singleton]
          omega
    · cases h
      exact ⟨hnd, by omega⟩

/-- The loop ends as soon as enough distinct ticks have been drawn. -/
theorem Schedule.pick_isSome_iff (hnd : picked.Nodup)
    (hlen : picked.length ≤ min triggersPerSlot 64) :
    (pick triggersPerSlot picked draws).isSome ↔
      min triggersPerSlot 64 ≤ (picked ++ draws).toFinset.card := by
  induction draws generalizing picked with
  | nil =>
    unfold pick
    rw [List.append_nil, List.toFinset_card_of_nodup hnd]
    split <;> simp <;> omega
  | cons tick draws ih =>
    unfold pick
    split
    · split
      · next hmem =>
        have hsame : (picked ++ tick :: draws).toFinset = (picked ++ draws).toFinset := by
          ext x
          simp only [List.mem_toFinset, List.mem_append, List.mem_cons]
          constructor
          · rintro (hx | rfl | hx)
            · exact Or.inl hx
            · exact Or.inl hmem
            · exact Or.inr hx
          · exact Or.imp_right Or.inr
        rw [ih hnd hlen, hsame]
      · next hnew =>
        have hnd' : (picked ++ [tick]).Nodup := by
          rw [← List.concat_eq_append]
          exact List.Nodup.concat hnew hnd
        rw [ih hnd' (by rw [List.length_append, List.length_singleton]; omega), List.append_assoc]
        rfl
    · refine iff_of_true rfl ?_
      have hle : picked.length ≤ (picked ++ tick :: draws).toFinset.card := by
        rw [← List.toFinset_card_of_nodup hnd]
        exact Finset.card_le_card fun x hx => by simp_all
      omega

end

/-! ## The slots of a run -/

/-- The entries of consecutive slots from `start` on, from the ticks of each. -/
def layout : ℕ → List (List ℕ) → List ScheduleEntry
  | _, [] => []
  | start, ticks :: picks => ticks.map (fun tick => ⟨start, tick⟩) ++ layout (start + 1) picks

/-- The entries list `count` slots from `start` on without a gap, with `perSlot` distinct ticks
in each, and none of them twice. -/
structure IsSchedule (start count perSlot : ℕ) (entries : List ScheduleEntry) : Prop where
  slots : ∃ picks : List (List ℕ), picks.length = count ∧ entries = layout start picks ∧
    ∀ ticks ∈ picks, ticks.length = perSlot ∧ ticks.Nodup ∧ ∀ tick ∈ ticks, 1 ≤ tick ∧ tick ≤ 64
  nodup : entries.Nodup

theorem le_slot_of_mem_layout {start : ℕ} {picks : List (List ℕ)} {e : ScheduleEntry}
    (he : e ∈ layout start picks) : start ≤ e.slot := by
  induction picks generalizing start with
  | nil => cases he
  | cons ticks picks ih =>
    rcases List.mem_append.mp he with he | he
    · obtain ⟨tick, -, rfl⟩ := List.mem_map.mp he
      exact le_rfl
    · exact (Nat.le_succ start).trans (ih he)

theorem layout_nodup {start : ℕ} {picks : List (List ℕ)} (h : ∀ ticks ∈ picks, ticks.Nodup) :
    (layout start picks).Nodup := by
  induction picks generalizing start with
  | nil => exact List.nodup_nil
  | cons ticks picks ih =>
    obtain ⟨hticks, hpicks⟩ := List.forall_mem_cons.mp h
    refine List.nodup_append.mpr ⟨hticks.map fun t u htu => (ScheduleEntry.mk.inj htu).2,
      ih hpicks, ?_⟩
    rintro e he e' he' rfl
    obtain ⟨tick, -, rfl⟩ := List.mem_map.mp he
    exact absurd (le_slot_of_mem_layout he') (Nat.not_succ_le_self start)

theorem layout_append (start : ℕ) (picks picks' : List (List ℕ)) :
    layout start (picks ++ picks') = layout start picks ++ layout (start + picks.length) picks' := by
  induction picks generalizing start with
  | nil => rfl
  | cons ticks picks ih =>
    have hstart : start + 1 + picks.length = start + (picks.length + 1) := by omega
    simp only [List.cons_append, layout, ih, List.length_cons, List.append_assoc, hstart]

theorem isSchedule_of_layout {start count perSlot : ℕ} {picks : List (List ℕ)}
    (hcount : picks.length = count) (h : ∀ ticks ∈ picks,
      ticks.length = perSlot ∧ ticks.Nodup ∧ ∀ tick ∈ ticks, 1 ≤ tick ∧ tick ≤ 64) :
    IsSchedule start count perSlot (layout start picks) :=
  ⟨⟨picks, hcount, rfl, h⟩, layout_nodup fun ticks ht => (h ticks ht).2.1⟩

theorem IsSchedule.append {start count count' perSlot : ℕ} {es es' : List ScheduleEntry}
    (h : IsSchedule start count perSlot es) (h' : IsSchedule (start + count) count' perSlot es') :
    IsSchedule start (count + count') perSlot (es ++ es') := by
  obtain ⟨picks, rfl, rfl, hpicks⟩ := h.slots
  obtain ⟨picks', rfl, rfl, hpicks'⟩ := h'.slots
  rw [← layout_append]
  refine isSchedule_of_layout (List.length_append) fun ticks ht => ?_
  rcases List.mem_append.mp ht with ht | ht
  · exact hpicks ticks ht
  · exact hpicks' ticks ht

theorem IsSchedule.nil (start perSlot : ℕ) : IsSchedule start 0 perSlot [] :=
  ⟨⟨[], rfl, rfl, by simp⟩, List.nodup_nil⟩

section

variable {s s' : Schedule} {draws rest : List Draw} {entries : List ScheduleEntry} {n : ℕ}

theorem Schedule.fill_spec {k : ℕ} (hfit : s.nextSlot + k + n ≤ 2 ^ 64)
    (h : s.fill (List.range' k n) draws = some (entries, rest)) :
    IsSchedule (s.nextSlot + k) n (min s.triggersPerSlot 64) entries := by
  induction n generalizing k draws entries with
  | zero =>
    cases h
    exact IsSchedule.nil _ _
  | succ n ih =>
    rw [List.range'_succ] at h
    unfold fill at h
    split at h
    · cases h
    · next picked draws' hpick =>
      obtain ⟨⟨out, rest'⟩, hout, heq⟩ := Option.map_eq_some_iff.mp h
      obtain ⟨rfl, rfl⟩ := Prod.mk.inj heq
      obtain ⟨hnd, hlen⟩ := pick_spec List.nodup_nil (Nat.zero_le _) hpick
      have hslot : (s.nextSlot + k) % 2 ^ 64 = s.nextSlot + k := Nat.mod_eq_of_lt (by omega)
      have hfirst : IsSchedule (s.nextSlot + k) 1 (min s.triggersPerSlot 64)
          (layout (s.nextSlot + k) [picked.map Subtype.val]) := by
        refine isSchedule_of_layout rfl fun ticks ht => ?_
        rw [List.mem_singleton.mp ht]
        refine ⟨by rw [List.length_map, hlen], hnd.map Subtype.val_injective, ?_⟩
        intro tick htick
        obtain ⟨d, -, rfl⟩ := List.mem_map.mp htick
        exact d.2
      have hrest := ih (k := k + 1) (by omega) hout
      have hall := hfirst.append hrest
      have hlayout : layout (s.nextSlot + k) [picked.map Subtype.val] =
          picked.map fun tick => ⟨s.nextSlot + k, tick.1⟩ := by
        rw [layout, layout, List.append_nil, List.map_map]
        rfl
      rw [hlayout, Nat.add_comm 1 n] at hall
      dsimp only
      rw [hslot]
      exact hall

theorem Schedule.nextChunk_spec (hfit : s.nextSlot + s.chunkSize < 2 ^ 64)
    (h : s.nextChunk draws = some (entries, s', rest)) :
    IsSchedule s.nextSlot s.chunkSize (min s.triggersPerSlot 64) entries ∧
      s' = { s with nextSlot := s.nextSlot + s.chunkSize } := by
  obtain ⟨⟨out, rest'⟩, hout, heq⟩ := Option.map_eq_some_iff.mp h
  cases heq
  rw [List.range_eq_range'] at hout
  refine ⟨Schedule.fill_spec (k := 0) (by omega) hout, ?_⟩
  have hsum : satAddU64 s.nextSlot s.chunkSize = s.nextSlot + s.chunkSize :=
    min_eq_left (by unfold U64.MAX; omega)
  rw [hsum]

/-- Each call goes on where the one before it stopped. -/
theorem Schedule.chunks_spec (hfit : s.nextSlot + s.chunkSize * n < 2 ^ 64)
    (h : s.chunks n draws = some (entries, s', rest)) :
    IsSchedule s.nextSlot (s.chunkSize * n) (min s.triggersPerSlot 64) entries := by
  induction n generalizing s draws entries with
  | zero =>
    cases h
    exact IsSchedule.nil _ _
  | succ n ih =>
    rw [Nat.mul_succ] at hfit ⊢
    unfold chunks at h
    split at h
    · cases h
    · next out t draws' hchunk =>
      obtain ⟨⟨out', t', rest'⟩, hr, heq⟩ := Option.map_eq_some_iff.mp h
      cases heq
      obtain ⟨hout, rfl⟩ := nextChunk_spec (by omega) hchunk
      have hrest := ih (by dsimp only; omega) hr
      rw [Nat.add_comm (s.chunkSize * n)]
      exact hout.append hrest

end

/-- As long as the slots stay below the top of `u64`, the chunks list them one after another,
each with distinct ticks. -/
theorem schedule_contiguous (startSlot chunkSize triggersPerSlot n : ℕ) {draws rest : List Draw}
    {entries : List ScheduleEntry} {s' : Schedule} (hfit : startSlot + max chunkSize 1 * n < 2 ^ 64)
    (h : (Schedule.new startSlot chunkSize triggersPerSlot).chunks n draws =
      some (entries, s', rest)) :
    IsSchedule startSlot (max chunkSize 1 * n) (min (max triggersPerSlot 1) 64) entries :=
  Schedule.chunks_spec hfit h

/-- Two calls with two slots of two triggers, where tick 6 is drawn twice in a row. -/
theorem schedule_contiguous_two_calls :
    IsSchedule 7 (max 2 1 * 2) (min (max 2 1) 64)
      [⟨7, 6⟩, ⟨7, 1⟩, ⟨8, 2⟩, ⟨8, 3⟩, ⟨9, 4⟩, ⟨9, 5⟩, ⟨10, 64⟩, ⟨10, 9⟩] := by
  have hdraws : (Schedule.new 7 2 2).chunks 2 [⟨6, by decide⟩, ⟨6, by decide⟩, ⟨1, by decide⟩,
      ⟨2, by decide⟩, ⟨3, by decide⟩, ⟨4, by decide⟩, ⟨5, by decide⟩, ⟨64, by decide⟩,
      ⟨9, by decide⟩] =
        some ([⟨7, 6⟩, ⟨7, 1⟩, ⟨8, 2⟩, ⟨8, 3⟩, ⟨9, 4⟩, ⟨9, 5⟩, ⟨10, 64⟩, ⟨10, 9⟩],
          ⟨11, 2, 2⟩, []) := by decide
  exact schedule_contiguous 7 2 2 2 (by decide) hdraws

/-- Chunk size 0 counts as 1, so that two calls from the last slot on schedule it twice. -/
theorem last_slot_scheduled_twice :
    2 ^ 64 - 1 + 0 * 2 < 2 ^ 64 ∧
      ((Schedule.new (2 ^ 64 - 1) 0 1).chunks 2 [⟨1, by decide⟩, ⟨1, by decide⟩]).map Prod.fst =
        some [⟨2 ^ 64 - 1, 1⟩, ⟨2 ^ 64 - 1, 1⟩] := by
  decide

end SolanaBench.TickTrigger.ScheduleGen
