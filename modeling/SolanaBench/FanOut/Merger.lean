import Mathlib.Data.Finset.Filter
import Mathlib.Data.Finset.Insert
import SolanaBench.FanOut.Observer
import SolanaBench.Lib.Feeds

/-! The merger of the fan-out bench: the first copy of an entry is passed on, and the keys of
slots that fell out of the window are forgotten. -/
namespace SolanaBench.FanOut.Merger

def DEDUP_WINDOW_SLOTS : ℕ := 50

abbrev Key := ℕ × Hash

/-- A message of one of the two channels. -/
abbrev Arrival := SourceKind × EntryObservation

def Arrival.key (i : Arrival) : Key := (i.2.slot, i.2.entryHash)

structure State where
  seen : Finset Key := ∅
  maxSlot : ℕ := 0

/-- A slot above the highest one moves the window. -/
def evict (st : State) (slot : ℕ) : State :=
  if slot > st.maxSlot then
    { maxSlot := slot
      seen :=
        if slot > DEDUP_WINDOW_SLOTS then
          st.seen.filter fun key => key.1 ≥ slot - DEDUP_WINDOW_SLOTS
        else st.seen }
  else st

/-- One iteration of `run_loop`, with what goes out on `out_tx`. -/
def machine : EventMachine State Arrival MergedEntry where
  step st i :=
    if i.key ∈ st.seen then (st, [])
    else (evict { st with seen := insert i.key st.seen } i.2.slot, [⟨i.2, i.1⟩])

def emitted (is : List Arrival) : List MergedEntry := (machine.run {} is).2

/-! ## What is forgotten -/

variable {st : State} {i : Arrival} {is : List Arrival} {key : Key} {slot : ℕ}

theorem mem_evict : key ∈ (evict st slot).seen ↔
    key ∈ st.seen ∧ ¬(st.maxSlot < slot ∧ key.1 + DEDUP_WINDOW_SLOTS < slot) := by
  unfold evict
  split
  · dsimp only
    split
    · rw [Finset.mem_filter]
      constructor
      · rintro ⟨hin, hge⟩
        exact ⟨hin, by omega⟩
      · rintro ⟨hin, hnear⟩
        exact ⟨hin, by omega⟩
    · exact ⟨fun hin => ⟨hin, by omega⟩, And.left⟩
  · exact ⟨fun hin => ⟨hin, by omega⟩, And.left⟩

theorem mem_step : key ∈ (machine.step st i).1.seen ↔ (key ∈ st.seen ∨ key = i.key) ∧
    ¬(i.key ∉ st.seen ∧ st.maxSlot < i.2.slot ∧ key.1 + DEDUP_WINDOW_SLOTS < i.2.slot) := by
  unfold machine
  dsimp only
  split
  · next hin =>
    refine ⟨fun hkey => ⟨Or.inl hkey, fun h => h.1 hin⟩, fun h => ?_⟩
    rcases h.1 with hkey | rfl
    · exact hkey
    · exact hin
  · next hnew => simp [mem_evict, hnew, Finset.mem_insert, or_comm]

theorem emitted_snoc (is : List Arrival) (i : Arrival) : emitted (is ++ [i]) =
    emitted is ++ if i.key ∈ (machine.run {} is).1.seen then [] else [⟨i.2, i.1⟩] := by
  unfold emitted
  rw [EventMachine.run_snoc_snd]
  congr 1
  unfold machine
  dsimp only
  split <;> rfl

/-- No arrival is more than a window behind an earlier one. -/
def InWindow (is : List Arrival) : Prop :=
  is.Pairwise fun a b => a.2.slot ≤ b.2.slot + DEDUP_WINDOW_SLOTS

instance (is : List Arrival) : Decidable (InWindow is) :=
  inferInstanceAs (Decidable (List.Pairwise _ is))

/-- The keys that came and are not yet out of reach are remembered. -/
theorem mem_run (hnear : ∀ a ∈ is, a.2.slot ≤ key.1 + DEDUP_WINDOW_SLOTS) :
    key ∈ (machine.run {} is).1.seen ↔ key ∈ is.map Arrival.key := by
  induction is using List.reverseRecOn with
  | nil => exact ⟨fun h => absurd h (Finset.notMem_empty _), fun h => absurd h List.not_mem_nil⟩
  | append_singleton is i ih =>
    have his := ih fun a ha => hnear a (List.mem_append_left _ ha)
    have hi := hnear i (by simp)
    rw [EventMachine.run_snoc_fst, mem_step, his, List.map_append, List.mem_append, List.map_singleton,
      List.mem_singleton]
    exact ⟨And.left, fun h => ⟨h, by omega⟩⟩

/-- In the window a copy is passed on exactly when it is the first one. -/
theorem emitted_snoc_of_inWindow (h : InWindow (is ++ [i])) : emitted (is ++ [i]) =
    emitted is ++ if i.key ∈ is.map Arrival.key then [] else [⟨i.2, i.1⟩] := by
  have hnear : ∀ a ∈ is, a.2.slot ≤ i.key.1 + DEDUP_WINDOW_SLOTS := fun a ha =>
    (List.pairwise_append.mp h).2.2 a ha i (List.mem_singleton_self i)
  rw [emitted_snoc]
  simp only [mem_run hnear]

/-! ## The stream that is passed on -/

/-- The entry that an observation shows, with its slot. -/
def shown (obs : EntryObservation) : ℕ × PohEntry := (obs.slot, obs.pohEntry)

/-- Copies with one key are copies of one entry. -/
def Consistent (is : List Arrival) : Prop :=
  ∀ a ∈ is, ∀ b ∈ is, a.key = b.key → shown a.2 = shown b.2

/-- The copy that was passed on. -/
def copyOf (m : MergedEntry) : Arrival := (m.firstSeenSource, m.observation)

theorem copyOf_mem {m : MergedEntry} (h : m ∈ emitted is) : copyOf m ∈ is := by
  obtain ⟨pre, i, post, rfl, hm⟩ := machine.exists_step_of_mem_run h
  unfold machine at hm
  dsimp only at hm
  split at hm
  · exact absurd hm List.not_mem_nil
  · rw [List.mem_singleton.mp hm]
    exact List.mem_append_right _ List.mem_cons_self

/-- Every key that came was passed on once. -/
theorem emitted_keys (h : InWindow is) :
    ((emitted is).map fun m => (copyOf m).key).Nodup ∧
      ∀ key, key ∈ is.map Arrival.key ↔ key ∈ (emitted is).map fun m => (copyOf m).key := by
  induction is using List.reverseRecOn with
  | nil => exact ⟨List.nodup_nil, fun key => Iff.rfl⟩
  | append_singleton is i ih =>
    obtain ⟨hnodup, hkeys⟩ := ih (List.pairwise_append.mp h).1
    rw [emitted_snoc_of_inWindow h]
    split
    · next hin =>
      rw [List.append_nil]
      refine ⟨hnodup, fun key => ?_⟩
      rw [List.map_append, List.mem_append, ← hkeys]
      refine ⟨fun hkey => hkey.elim id fun hlast => ?_, Or.inl⟩
      rw [List.mem_singleton.mp hlast]
      exact hin
    · next hnew =>
      rw [List.map_append, List.map_append]
      refine ⟨List.nodup_append.mpr ⟨hnodup, List.nodup_singleton _, ?_⟩, fun key => ?_⟩
      · intro key hkey key' hlast heq
        obtain rfl : key' = i.key := List.mem_singleton.mp hlast
        rw [heq, ← hkeys] at hkey
        exact hnew hkey
      · rw [List.mem_append, List.mem_append, hkeys]
        exact Iff.rfl

/-- The merged stream is what came, without the copies that came again. -/
theorem repeats_emitted (h : InWindow is) (hsame : Consistent is) :
    WindowRule.Repeats ((emitted is).map fun m => shown m.observation)
      (is.map fun i => shown i.2) := by
  induction is using List.reverseRecOn with
  | nil => exact .nil
  | append_singleton is i ih =>
    have hpre := (List.pairwise_append.mp h).1
    have hrepeats := ih hpre fun a ha b hb =>
      hsame a (List.mem_append_left _ ha) b (List.mem_append_left _ hb)
    rw [emitted_snoc_of_inWindow h, List.map_append, List.map_append, List.map_singleton]
    split
    · next hin =>
      rw [List.map_nil, List.append_nil]
      obtain ⟨m, hm, hkey⟩ := List.mem_map.mp (((emitted_keys hpre).2 _).mp hin)
      have hshown := hsame (copyOf m) (List.mem_append_left _ (copyOf_mem hm)) i (by simp) hkey
      exact .again hrepeats (List.mem_map.mpr ⟨m, hm, hshown⟩)
    · exact .next hrepeats _

/-- When both feeds bring one sequence, in order and without gaps, the merged stream is that
sequence as far as either feed has come. -/
theorem emitted_prefix {stream : List (ℕ × PohEntry)} (h : InWindow is)
    (hkeys : (stream.map fun x => (x.1, x.2.hash)).Nodup)
    (hfeeds : ∀ source, feedOf source (is.map fun i => (i.1, shown i.2)) <+: stream) :
    ((emitted is).map fun m => shown m.observation) <+: stream ∧
      ∀ i ∈ is, shown i.2 ∈ (emitted is).map fun m => shown m.observation := by
  have hfed : ∀ i ∈ is, shown i.2 ∈ stream := by
    intro i hi
    refine (hfeeds i.1).subset (List.mem_map.mpr ⟨(i.1, shown i.2), ?_, rfl⟩)
    exact List.mem_filter.mpr ⟨List.mem_map_of_mem hi, by simp⟩
  have hsame : Consistent is := fun a ha b hb hkey =>
    List.inj_on_of_nodup_map hkeys (hfed a ha) (hfed b hb) hkey
  have hrepeats := repeats_emitted h hsame
  have hnodup : ((emitted is).map fun m => shown m.observation).Nodup := by
    refine List.Nodup.of_map (fun x : ℕ × PohEntry => (x.1, x.2.hash)) ?_
    rw [List.map_map]
    exact (emitted_keys h).1
  have hseen : (is.map fun i => (i.1, shown i.2)).map Prod.snd = is.map fun i => shown i.2 := by
    rw [List.map_map]
    rfl
  refine ⟨prefix_of_feeds (List.Nodup.of_map _ hkeys) (hseen ▸ hrepeats) hnodup hfeeds, ?_⟩
  exact fun i hi => hrepeats.mem _ (List.mem_map_of_mem hi)

end SolanaBench.FanOut.Merger
