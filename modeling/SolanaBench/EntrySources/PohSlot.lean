import Mathlib.Algebra.BigOperators.Group.List.Basic
import SolanaBench.EntrySources.Observation
import SolanaBench.Lib.Splits
import SolanaBench.Lib.WindowCount

/-! The proof of history of a slot: 64 ticks of 62500 hashes each, split into entries that end
with the tick entry, the only one without transactions. -/
namespace SolanaBench

structure PohEntry where
  hash : Hash
  numHashes : ℕ
  txCount : ℕ
  deriving DecidableEq, Repr

/-- The entry that an observation is of. -/
def EntryObservation.pohEntry (o : EntryObservation) : PohEntry :=
  ⟨o.entryHash, o.numHashes, o.txCount⟩

/-- An entry is known by its hash, and a tick is an entry without transactions. -/
def tickRule : WindowRule PohEntry Hash where
  size := 62_500
  key := PohEntry.hash
  weight := PohEntry.numHashes
  closes e := e.txCount == 0

abbrev PohTick := WindowRule.Window tickRule

structure PohSlot where
  slot : ℕ
  ticks : List PohTick
  length_ticks : ticks.length = 64
  nodup : ((ticks.flatMap WindowRule.Window.items).map PohEntry.hash).Nodup

namespace PohSlot

def entries (s : PohSlot) : List PohEntry := s.ticks.flatMap WindowRule.Window.items

/-- The entry that closes the `n`-th tick of the slot. -/
def closing (s : PohSlot) : ℕ → Option PohEntry
  | 0 => none
  | k + 1 => s.ticks[k]?.map WindowRule.Window.close

open WindowRule

variable {s : PohSlot} {e : PohEntry} {n m : ℕ} {c : WindowCount Hash}

theorem sum_flatMap_items (ticks : List PohTick) :
    ((ticks.flatMap Window.items).map PohEntry.numHashes).sum = 62_500 * ticks.length := by
  induction ticks with
  | nil => rfl
  | cons t ticks ih =>
    have ht : (t.items.map PohEntry.numHashes).sum = 62_500 := t.sum_items
    rw [List.flatMap_cons, List.map_append, List.sum_append, ih, ht, List.length_cons]
    omega

/-- Where the closing entry of a tick stands. -/
theorem split_of_closing (h : s.closing n = some e) : ∃ before after,
    s.entries = before ++ e :: after ∧
      (before.map PohEntry.numHashes).sum + e.numHashes = 62_500 * n := by
  cases n with
  | zero => cases h
  | succ k =>
    obtain ⟨t, ht, rfl⟩ := Option.map_eq_some_iff.mp h
    obtain ⟨hk, rfl⟩ := List.getElem?_eq_some_iff.mp ht
    have hweight : ((s.ticks[k].body).map PohEntry.numHashes).sum + s.ticks[k].close.numHashes =
        62_500 := s.ticks[k].weight_eq
    refine ⟨(s.ticks.take k).flatMap Window.items ++ s.ticks[k].body,
      (s.ticks.drop (k + 1)).flatMap Window.items, ?_, ?_⟩
    · have hsplit : s.ticks = s.ticks.take k ++ s.ticks[k] :: s.ticks.drop (k + 1) := by simp
      unfold entries
      rw [congrArg (List.flatMap Window.items) hsplit, List.flatMap_append, List.flatMap_cons]
      simp [Window.items]
    · rw [List.map_append, List.sum_append, sum_flatMap_items, List.length_take_of_le hk.le]
      omega

theorem exists_closing (he : e ∈ s.entries) (hcloses : tickRule.closes e = true) :
    ∃ n, s.closing n = some e := by
  obtain ⟨t, ht, hmem⟩ := List.mem_flatMap.mp he
  have hclose : e = t.close := by
    rcases List.mem_append.mp hmem with hbody | hlast
    · rw [t.body_closes e hbody] at hcloses
      cases hcloses
    · exact List.mem_singleton.mp hlast
  obtain ⟨k, hk, rfl⟩ := List.getElem_of_mem ht
  exact ⟨k + 1, by simp [closing, List.getElem?_eq_getElem hk, hclose]⟩

theorem split_unique {before before' after after' : List PohEntry}
    (h : s.entries = before ++ e :: after) (h' : s.entries = before' ++ e :: after') :
    before = before' ∧ after = after' := by
  have hnodup : s.entries.Nodup := List.Nodup.of_map _ s.nodup
  rcases splits_compare (h.symm.trans h') with ⟨hbefore, -, hafter⟩ | ⟨mid, rfl, -⟩ | ⟨mid, rfl, -⟩
  · exact ⟨hbefore, hafter⟩
  · rw [h'] at hnodup
    exact absurd rfl ((List.nodup_append.mp hnodup).2.2 e (by simp) e (by simp))
  · rw [h] at hnodup
    exact absurd rfl ((List.nodup_append.mp hnodup).2.2 e (by simp) e (by simp))

/-- What has not come of the entries before `e` has as many hashes as what has come of those
after it. -/
def InPlace (s : PohSlot) (c : WindowCount Hash) (e : PohEntry) : Prop :=
  ∀ before after, s.entries = before ++ e :: after →
    tickRule.missing c before = tickRule.came c after

/-- The number that an entry of the slot gets is that of the tick it closes. -/
theorem number_sound_iff (hweighed : Weighed tickRule s.entries c) (he : e ∈ s.entries) :
    (∀ n, (tickRule.take c e).2 = some n → s.closing n = some e) ↔
      (tickRule.Completes c e → s.InPlace c e) := by
  have hnumber : ∀ k, s.closing k = some e → tickRule.Completes c e →
      (c.closed + 1 = k ↔ s.InPlace c e) := by
    intro k hk hcompletes
    obtain ⟨before, after, hsplit, hsum⟩ := split_of_closing hk
    rw [hsplit] at hweighed
    rw [hweighed.number_eq_iff (Nat.succ_pos 62_499) hsum hcompletes]
    constructor
    · intro heq before' after' hsplit'
      obtain ⟨rfl, rfl⟩ := split_unique hsplit hsplit'
      exact heq
    · exact fun h => h before after hsplit
  constructor
  · intro h hcompletes
    exact (hnumber _ (h _ (take_eq_some_iff.mpr ⟨hcompletes, rfl⟩)) hcompletes).mp rfl
  · intro h n hn
    obtain ⟨hcompletes, rfl⟩ := take_eq_some_iff.mp hn
    obtain ⟨k, hk⟩ := exists_closing he hcompletes.2.1
    rw [(hnumber k hk hcompletes).mpr (h hcompletes)]
    exact hk

/-- Before anything has come, the first entry is in place. -/
theorem inPlace_start {tail : List PohEntry} (h : s.entries = e :: tail) : s.InPlace {} e := by
  intro before after hsplit
  have hhead : s.entries = [] ++ e :: tail := h
  obtain ⟨hbefore, -⟩ := split_unique hhead hsplit
  rw [← hbefore]
  simp [missing, came, FilterSum.doneSum]

/-- Nothing that is counted for the slot exceeds its hashes. -/
theorem total_le (hweighed : Weighed tickRule s.entries c) : c.total ≤ 62_500 * 64 := by
  have hsum : (s.entries.map PohEntry.numHashes).sum = 62_500 * 64 := by
    unfold entries
    rw [sum_flatMap_items, s.length_ticks]
  rw [hweighed.items]
  exact (FilterSum.doneSum_le s.entries).trans hsum.le

end PohSlot

/-- A tick without transactions before its end, its hash being its place. -/
def emptyTick (k : ℕ) : PohTick where
  body := []
  close := ⟨k, 62_500, 0⟩
  body_closes := nofun
  close_closes := by simp [tickRule]
  weight_eq := by simp [tickRule]

/-- Slot 7 without transactions. -/
def emptySlot : PohSlot where
  slot := 7
  ticks := (List.range 64).map emptyTick
  length_ticks := by simp
  nodup := by
    have hhashes : ∀ l : List ℕ,
        ((l.map emptyTick).flatMap WindowRule.Window.items).map PohEntry.hash = l := by
      intro l
      induction l with
      | nil => rfl
      | cons k l ih =>
        rw [List.map_cons, List.flatMap_cons, List.map_append, ih]
        simp [WindowRule.Window.items, emptyTick]
    rw [hhashes]
    exact List.nodup_range

/-- The entry that ends such a tick of a slot. -/
def tickEntry (slot k : ℕ) : EntryObservation :=
  ⟨.shredStream, k, slot, 0, 62_500, k, 0, [], none, none⟩

theorem entries_emptySlot :
    emptySlot.entries = (List.range 64).map fun k => (tickEntry 7 k).pohEntry := by
  have hentries : ∀ l : List ℕ, (l.map emptyTick).flatMap WindowRule.Window.items =
      l.map fun k => (tickEntry 7 k).pohEntry := by
    intro l
    induction l with
    | nil => rfl
    | cons k l ih =>
      rw [List.map_cons, List.flatMap_cons, ih]
      simp [WindowRule.Window.items, emptyTick, tickEntry, EntryObservation.pohEntry]
  exact hentries _

end SolanaBench
