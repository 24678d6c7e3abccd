import SolanaBench.EntrySources.Deshred
import SolanaBench.EntrySources.FecSets

/-! A slot whose data shreds are split into FEC sets, each of which arrives once, in any order:
the tracker returns a set with the packet that brings its last missing shred. -/
namespace SolanaBench.ShredStreamUdp

/-- The sets in the order of the slot. Their shreds are numbered from 0 through all sets, each
shred names the first of its set, and just the last one carries a terminator flag. -/
structure Layout (k : ℕ) (sets : List (List Shred)) : Prop where
  nonempty : ∀ set ∈ sets, set ≠ []
  data : ∀ set ∈ sets, ∀ s ∈ set, s.slot = k ∧ s.shredType = .data
  first : ∀ set ∈ sets, ∀ s ∈ set, set.head?.map Shred.index = some s.fecSetIndex
  last : ∀ set ∈ sets, ∀ s ∈ set, s.terminates ↔ set.getLast? = some s
  indices : sets.flatten.map (fun s => s.index.val) = List.range sets.flatten.length

/-- `new_from_serialized_shred` refuses an index from `MAX_DATA_SHREDS_PER_SLOT` on. -/
def Sanitizes (parse : ParseShred) : Prop :=
  ∀ bytes s, parse bytes = some s → s.index.val < 32768

/-! ## One set -/

/-- What the layout says of one set. -/
structure IsFecSet (key : FecKey) (set : List Shred) : Prop where
  nonempty : set ≠ []
  keyed : ∀ s ∈ set, s.key = key
  last : ∀ s ∈ set, s.terminates ↔ set.getLast? = some s
  indices : set.map (fun s => s.index.val) = List.range' key.2.val set.length

section

variable {k : ℕ} {key : FecKey} {sets before after : List (List Shred)} {set c : List Shred}
  {s s' : Shred}

theorem IsFecSet.index_inj (h : IsFecSet key set) (hs : s ∈ set) (hs' : s' ∈ set)
    (heq : s.index = s'.index) : s = s' := by
  have hnodup : (set.map fun s => s.index.val).Nodup := h.indices ▸ List.nodup_range'
  exact List.inj_on_of_nodup_map hnodup hs hs' (congrArg Fin.val heq)

theorem IsFecSet.nodup (h : IsFecSet key set) : set.Nodup :=
  List.Nodup.of_map _ (h.indices ▸ List.nodup_range')

theorem IsFecSet.index_mem (h : IsFecSet key set) (hs : s ∈ set) :
    key.2.val ≤ s.index.val ∧ s.index.val < key.2.val + set.length := by
  have hmem : s.index.val ∈ set.map fun s => s.index.val := List.mem_map.mpr ⟨s, hs, rfl⟩
  rw [h.indices, List.mem_range'_1] at hmem
  exact hmem

/-- The number of the last shred of the set. -/
theorem IsFecSet.index_last (h : IsFecSet key set) (hs : set.getLast? = some s) :
    s.index.val + 1 = key.2.val + set.length := by
  have hlast := congrArg List.getLast? h.indices
  have hpos := List.length_pos_iff.mpr h.nonempty
  rw [List.getLast?_map, hs, List.getLast?_range', if_neg (by omega)] at hlast
  have hval : s.index.val = key.2.val + set.length - 1 := by simpa using hlast
  omega

theorem IsFecSet.terminated (h : IsFecSet key set) (hlast : set.getLast? = some s')
    (hsub : c ⊆ set) : Terminated key s'.index c := by
  intro s hs
  have hmem := h.index_mem (hsub hs)
  have hend := h.index_last hlast
  refine ⟨⟨Fin.le_def.mpr hmem.1, Fin.le_def.mpr (by omega)⟩, ?_⟩
  rw [h.last s (hsub hs), hlast]
  constructor
  · rintro ⟨⟩
    rfl
  · intro heq
    rw [h.index_inj (hsub hs) (List.mem_of_getLast? hlast) heq]

/-- Shreds of the set that are one for each index are the set. -/
theorem IsFecSet.eq_of_indices (h : IsFecSet key set) (hsub : c ⊆ set)
    (hindices : c.map (fun s => s.index.val) = List.range' key.2.val set.length) : c = set := by
  have heq : c.map (fun s => s.index.val) = set.map fun s => s.index.val := by
    rw [hindices, h.indices]
  have hlen : c.length = set.length := by simpa using congrArg List.length heq
  refine List.ext_getElem hlen fun i hi hi' => ?_
  refine h.index_inj (hsub (List.getElem_mem hi)) (List.getElem_mem hi') (Fin.ext ?_)
  have hat := congrArg (fun l => l[i]?) heq
  simpa [hi, hi'] using hat

/-- Shreds of a set that are full give the set. -/
theorem IsFecSet.collect_of_full (h : IsFecSet key set) (hsize : set.length < 2 ^ 32)
    (hsub : c ⊆ set) (hfull : full c) : (collect c).entries.map Prod.snd = set := by
  obtain ⟨s, hlast⟩ := Option.isSome_iff_exists.mp (List.getLast?_isSome.mpr h.nonempty)
  have hend := h.index_last hlast
  have hcount : s.index.val + 1 - key.2.val = set.length := by omega
  have hindices := indices_of_full (fun s hs => h.keyed s (hsub hs)) (h.terminated hlast hsub) hfull
    (by omega)
  rw [hcount] at hindices
  refine h.eq_of_indices (fun s hs => ?_) hindices
  obtain ⟨x, hx, rfl⟩ := List.mem_map.mp hs
  exact hsub (mem_collect hx).1

theorem announced_isSome (h : ∃ s ∈ c, s.terminates) : (announced c).isSome := by
  induction c using List.reverseRecOn with
  | nil => simp at h
  | append_singleton c s' ih =>
    rw [announced_snoc]
    by_cases hs' : s'.terminates = true
    · simp [hs']
    · rw [if_neg hs']
      obtain ⟨s, hs, hflag⟩ := h
      rcases List.mem_append.mp hs with hs | hs
      · exact ih ⟨s, hs, hflag⟩
      · rw [List.mem_singleton.mp hs] at hflag
        exact absurd hflag hs'

/-- The indices of shreds that include a whole set, and nothing else, are counted right. -/
theorem IsFecSet.size_collect (h : IsFecSet key set) (hsub : c ⊆ set) (hall : set ⊆ c) :
    (collect c).size = set.length := by
  have hnodup : (set.map Shred.index).Nodup := by
    refine List.Nodup.of_map Fin.val ?_
    rw [List.map_map]
    exact h.indices ▸ List.nodup_range'
  have hsame : ∀ j, j ∈ (collect c).keys ↔ j ∈ set.map Shred.index := by
    intro j
    rw [List.mem_map]
    constructor
    · intro hj
      rw [collect_keys, List.map_map] at hj
      obtain ⟨x, hx, rfl⟩ := List.mem_map.mp hj
      exact ⟨x.2, hsub (mem_collect hx).1, rfl⟩
    · rintro ⟨s, hs, rfl⟩
      exact mem_collect_keys (hall hs)
  have hperm := (List.perm_ext_iff_of_nodup (SortedMap.keys_nodup (m := collect c)) hnodup).mpr hsame
  simpa [SortedMap.keys, SortedMap.size] using hperm.length_eq

/-- Shreds of a set are full exactly if none is missing. -/
theorem IsFecSet.full_iff (h : IsFecSet key set) (hsize : set.length < 2 ^ 32) (hsub : c ⊆ set) :
    full c ↔ set ⊆ c := by
  constructor
  · intro hfull s hs
    rw [← h.collect_of_full hsize hsub hfull] at hs
    obtain ⟨x, hx, rfl⟩ := List.mem_map.mp hs
    exact (mem_collect hx).1
  · intro hall
    obtain ⟨s', hlast⟩ := Option.isSome_iff_exists.mp (List.getLast?_isSome.mpr h.nonempty)
    have hmem := List.mem_of_getLast? hlast
    have hend := h.index_last hlast
    obtain ⟨n, hn⟩ := Option.isSome_iff_exists.mp
      (announced_isSome ⟨s', hall hmem, (h.last s' hmem).mpr hlast⟩)
    refine ShredStreamUdp.full_iff.mpr ⟨n, hn, ?_⟩
    obtain ⟨s, hs, hflag, rfl⟩ := mem_of_announced hn
    obtain ⟨⟨hlo, -⟩, hterm⟩ := h.terminated hlast hsub s hs
    have hset : s.fecSetIndex = key.2 := congrArg Prod.snd (h.keyed s (hsub hs))
    rw [hset, h.size_collect hsub hall, Nat.mod_eq_of_lt hsize, hterm.mp hflag,
      announced_val (hterm.mp hflag ▸ hlo) (by omega)]
    omega

/-! ## The sets of a layout -/

/-- The indices of a stretch of the layout. -/
theorem Layout.indices_append (h : Layout k (before ++ after)) :
    after.flatten.map (fun s => s.index.val) =
      List.range' before.flatten.length after.flatten.length := by
  have hall := h.indices
  rw [List.flatten_append, List.map_append, List.length_append, List.range_eq_range',
    ← List.range'_append_1, Nat.zero_add] at hall
  exact (List.append_inj hall (by rw [List.length_map, List.length_range'])).2

/-- The key of the set that comes after `before`. -/
theorem Layout.fecSetIndex (h : Layout k (before ++ set :: after)) (hs : s ∈ set) :
    s.fecSetIndex.val = before.flatten.length := by
  obtain ⟨s', hs', hidx⟩ := Option.map_eq_some_iff.mp (h.first set (by simp) s hs)
  have hhead := congrArg List.head? h.indices_append
  have hpos := List.length_pos_iff.mpr (h.nonempty set (by simp))
  obtain ⟨rest, rfl⟩ := List.head?_eq_some_iff.mp hs'
  rw [List.head?_range', if_neg (by simp), List.flatten_cons, List.cons_append, List.map_cons,
    List.head?_cons] at hhead
  rw [← hidx]
  exact Option.some.inj hhead

theorem Layout.isFecSet (h : Layout k sets) (hset : set ∈ sets) (hs : s ∈ set) :
    IsFecSet s.key set := by
  obtain ⟨before, after, rfl⟩ := List.append_of_mem hset
  refine ⟨h.nonempty set hset, fun s' hs' => ?_, h.last set hset, ?_⟩
  · have hslot : s'.slot = s.slot :=
      (h.data set hset s' hs').1.trans (h.data set hset s hs).1.symm
    exact Prod.ext hslot (Fin.ext ((h.fecSetIndex hs').trans (h.fecSetIndex hs).symm))
  · have hrange := h.indices_append
    rw [List.flatten_cons, List.map_append, List.length_append, ← List.range'_append_1] at hrange
    have hkey : s.key.2.val = before.flatten.length := h.fecSetIndex hs
    rw [hkey]
    exact (List.append_inj hrange (by rw [List.length_map, List.length_range'])).1

theorem Layout.nodup (h : Layout k sets) : sets.flatten.Nodup :=
  List.Nodup.of_map _ (h.indices ▸ List.nodup_range)

theorem Layout.index_inj (h : Layout k sets) (hs : s ∈ sets.flatten) (hs' : s' ∈ sets.flatten)
    (heq : s.index = s'.index) : s = s' := by
  have hnodup : (sets.flatten.map fun s => s.index.val).Nodup := h.indices ▸ List.nodup_range
  exact List.inj_on_of_nodup_map hnodup hs hs' (congrArg Fin.val heq)

/-- A shred is in one set only. -/
theorem Layout.eq_of_mem {set' : List Shred} (h : Layout k sets) (hset : set ∈ sets)
    (hset' : set' ∈ sets) (hs : s ∈ set) (hs' : s ∈ set') : set = set' := by
  by_contra hne
  have hdisjoint := (List.nodup_flatten.mp h.nodup).2
  have hsymm : Std.Symm (List.Disjoint (α := Shred)) := ⟨fun _ _ hd _ ha hb => hd hb ha⟩
  exact hdisjoint.forall hset hset' hne hs hs'

theorem Layout.notMem (h : Layout k (before ++ set :: after)) : set ∉ before ∧ set ∉ after := by
  obtain ⟨s, hs⟩ := List.exists_mem_of_ne_nil set (h.nonempty set (by simp))
  have hnodup := h.nodup
  rw [List.flatten_append, List.flatten_cons] at hnodup
  obtain ⟨-, htail, hbefore⟩ := List.nodup_append.mp hnodup
  obtain ⟨-, -, hafter⟩ := List.nodup_append.mp htail
  exact ⟨fun hmem => hbefore s (List.mem_flatten.mpr ⟨set, hmem, hs⟩) s
      (List.mem_append_left _ hs) rfl,
    fun hmem => hafter s hs s (List.mem_flatten.mpr ⟨set, hmem, hs⟩) rfl⟩

/-- The shreds of the slot with the key of a set are those of the set. -/
theorem Layout.mem_iff (h : Layout k sets) (hset : set ∈ sets) (hs : s ∈ set) :
    s' ∈ sets.flatten ∧ s'.key = s.key ↔ s' ∈ set := by
  constructor
  · rintro ⟨hs', hkey⟩
    obtain ⟨set', hset', hs'⟩ := List.mem_flatten.mp hs'
    -- both sets begin with the shred that their key names
    obtain ⟨first, hfirst, hidx⟩ := Option.map_eq_some_iff.mp (h.first set hset s hs)
    obtain ⟨first', hfirst', hidx'⟩ := Option.map_eq_some_iff.mp (h.first set' hset' s' hs')
    have hmem := List.mem_of_head? hfirst
    have hmem' := List.mem_of_head? hfirst'
    have hsame : first' = first := by
      refine h.index_inj (List.mem_flatten.mpr ⟨set', hset', hmem'⟩)
        (List.mem_flatten.mpr ⟨set, hset, hmem⟩) ?_
      rw [hidx, hidx']
      exact congrArg Prod.snd hkey
    rw [h.eq_of_mem hset hset' hmem (hsame ▸ hmem')]
    exact hs'
  · intro hs'
    exact ⟨List.mem_flatten.mpr ⟨set, hset, hs'⟩, (h.isFecSet hset hs).keyed s' hs'⟩

/-! ## Arrivals -/

variable (parse : ParseShred)

def Input.stamped (i : Input) : RawShredPacket × Instant := (i.packet, i.completedAt)

/-- The data shreds of slot `k` in the order in which they come. -/
def slotShreds (parse : ParseShred) (k : ℕ) (is : List Input) : List Shred :=
  is.filterMap fun i => (parse i.packet.bytes).filter fun s => s.slot = k ∧ s.shredType = .data

/-- The packet brings the last missing shred of the set. -/
def Finishes (parse : ParseShred) (k : ℕ) (set : List Shred) (pre : List Input) (i : Input) :
    Prop :=
  set ⊆ slotShreds parse k (pre ++ [i]) ∧ ¬set ⊆ slotShreds parse k pre

/-- The data shreds of a set are those of its slot with its key. -/
theorem received_eq (key : FecKey) (is : List Input) :
    received parse key (is.map Input.stamped) =
      (slotShreds parse key.1 is).filter fun s => decide (s.key = key) := by
  unfold received slotShreds
  rw [List.filterMap_map, List.filter_filterMap]
  refine List.filterMap_congr fun i _ => ?_
  simp only [Function.comp_apply, Input.stamped, dataShred?]
  cases parse i.packet.bytes with
  | none => rfl
  | some s =>
    by_cases hdata : s.shredType = .data
    · by_cases hkey : s.key = key
      · have hslot : s.slot = key.1 := congrArg Prod.fst hkey
        simp [Option.filter, hdata, hkey, hslot]
      · by_cases hslot : s.slot = key.1 <;> simp [Option.filter, hdata, hkey, hslot]
    · simp [Option.filter, hdata]

/-- What the tracker holds of a set after the packets. -/
def held (parse : ParseShred) (key : FecKey) (is : List Input) : List Shred :=
  ((gather full).run [] (received parse key (is.map Input.stamped))).1

/-- Some data shreds of the slot have come, each once. -/
structure Arriving (parse : ParseShred) (k : ℕ) (sets : List (List Shred)) (is : List Input) :
    Prop where
  layout : Layout k sets
  size : ∀ set ∈ sets, set.length < 2 ^ 32
  nodup : (slotShreds parse k is).Nodup
  mem : slotShreds parse k is ⊆ sets.flatten

variable {parse} {pre is post : List Input} {i : Input} {tracker : FecTracker}

theorem slotShreds_append (pre post : List Input) :
    slotShreds parse k (pre ++ post) = slotShreds parse k pre ++ slotShreds parse k post :=
  List.filterMap_append

theorem slotShreds_snoc (pre : List Input) (hp : parse i.packet.bytes = some s)
    (hslot : s.slot = k) (hdata : s.shredType = .data) :
    slotShreds parse k (pre ++ [i]) = slotShreds parse k pre ++ [s] := by
  rw [slotShreds_append]
  simp [slotShreds, hp, hslot, hdata, Option.filter]

/-- All data shreds of a slot come, each once: then its prefixes are arriving. -/
theorem Arriving.of_perm (hlayout : Layout k sets) (hsane : Sanitizes parse)
    (hperm : (slotShreds parse k is).Perm sets.flatten) (his : is = pre ++ post) :
    Arriving parse k sets pre := by
  have hsub : (slotShreds parse k pre).Sublist (slotShreds parse k is) := by
    rw [his, slotShreds_append]
    exact List.sublist_append_left _ _
  refine ⟨hlayout, fun set hset => ?_, (hperm.nodup_iff.mpr hlayout.nodup).sublist hsub,
    fun s hs => hperm.subset (hsub.subset hs)⟩
  obtain ⟨s, hlast⟩ := Option.isSome_iff_exists.mp
    (List.getLast?_isSome.mpr (hlayout.nonempty set hset))
  have hs := List.mem_of_getLast? hlast
  have hend := (hlayout.isFecSet hset hs).index_last hlast
  -- the last shred of the set was parsed from a packet
  obtain ⟨i, -, hi⟩ := List.mem_filterMap.mp (hperm.mem_iff.mpr (List.mem_flatten.mpr ⟨set, hset, hs⟩))
  have hlt := hsane _ s (Option.filter_eq_some_iff.mp hi).1
  omega

theorem Arriving.of_append (h : Arriving parse k sets (pre ++ post)) : Arriving parse k sets pre := by
  have hnodup := h.nodup
  have hmem := h.mem
  rw [slotShreds_append] at hnodup hmem
  exact ⟨h.layout, h.size, (List.nodup_append.mp hnodup).1,
    fun s hs => hmem (List.mem_append_left _ hs)⟩

/-- Of a set there have come shreds of it, and all of it once all of it has come. -/
theorem Arriving.received_iff (h : Arriving parse k sets is) (hset : set ∈ sets) (hs : s ∈ set) :
    received parse s.key (is.map Input.stamped) ⊆ set ∧
      (set ⊆ received parse s.key (is.map Input.stamped) ↔ set ⊆ slotShreds parse k is) := by
  have hslot : s.key.1 = k := (h.layout.data set hset s hs).1
  rw [received_eq, hslot]
  constructor
  · intro s' hs'
    obtain ⟨hmem, hkey⟩ := List.mem_filter.mp hs'
    exact (h.layout.mem_iff hset hs).mp ⟨h.mem hmem, of_decide_eq_true hkey⟩
  · constructor
    · exact fun hall s' hs' => (List.mem_filter.mp (hall hs')).1
    · exact fun hall s' hs' => List.mem_filter.mpr
        ⟨hall hs', decide_eq_true ((h.layout.isFecSet hset hs).keyed s' hs')⟩

/-- While a set is not complete the tracker holds all that has come of it. -/
theorem Arriving.held_eq (h : Arriving parse k sets is) (hset : set ∈ sets) (hs : s ∈ set)
    (hshort : ¬set ⊆ slotShreds parse k is) :
    held parse s.key is = received parse s.key (is.map Input.stamped) := by
  obtain ⟨hsub, hall⟩ := h.received_iff hset hs
  have hset' := h.layout.isFecSet hset hs
  have hrun := @Gather.run_short _ full [] (received parse s.key (is.map Input.stamped))
    fun p hp hfull => by
      have hp' : p ⊆ set := List.Subset.trans hp.subset hsub
      rw [List.nil_append, hset'.full_iff (h.size set hset) hp'] at hfull
      exact hshort (hall.mp (List.Subset.trans hfull hp.subset))
  unfold held
  rw [hrun, List.nil_append]

/-- A data shred of the slot completes its set or none. -/
theorem Arriving.finishes (h : Arriving parse k sets (pre ++ [i])) (hp : parse i.packet.bytes = some s)
    (hset : set ∈ sets) (hs : s ∈ set) :
    (Finishes parse k set pre i ↔ set ⊆ slotShreds parse k (pre ++ [i])) ∧
      ∀ set' ∈ sets, Finishes parse k set' pre i → set' = set := by
  obtain ⟨hslot, hdata⟩ := h.layout.data set hset s hs
  have hsnoc := slotShreds_snoc pre hp hslot hdata
  have hnew : s ∉ slotShreds parse k pre := by
    have hnodup := h.nodup
    rw [hsnoc] at hnodup
    exact fun hmem => (List.nodup_append.mp hnodup).2.2 s hmem s (by simp) rfl
  refine ⟨and_iff_left fun hsub => hnew (hsub hs), fun set' hset' hfin => ?_⟩
  by_contra hne
  refine hfin.2 fun s' hs' => ?_
  have hmem := hfin.1 hs'
  rw [hsnoc] at hmem
  rcases List.mem_append.mp hmem with hmem | hmem
  · exact hmem
  · rw [List.mem_singleton.mp hmem] at hs'
    exact absurd (h.layout.eq_of_mem hset' hset hs' hs) hne

/-- A packet that finishes a set brings a shred of it. -/
theorem Finishes.brings (h : Finishes parse k set pre i) :
    ∃ s, parse i.packet.bytes = some s ∧ s ∈ set := by
  by_contra hnone
  refine h.2 fun s hs => ?_
  have hmem := h.1 hs
  rw [slotShreds_append] at hmem
  rcases List.mem_append.mp hmem with hmem | hmem
  · exact hmem
  · obtain ⟨j, hj, hs'⟩ := List.mem_filterMap.mp hmem
    rw [List.mem_singleton.mp hj] at hs'
    exact absurd ⟨s, (Option.filter_eq_some_iff.mp hs').1, hs⟩ hnone

/-- A packet finishes one set only. -/
theorem Arriving.finishes_unique {set' : List Shred} (h : Arriving parse k sets (pre ++ [i]))
    (hset : set ∈ sets) (hset' : set' ∈ sets) (hfin : Finishes parse k set pre i)
    (hfin' : Finishes parse k set' pre i) : set' = set := by
  obtain ⟨s, hp, hs⟩ := hfin.brings
  exact (h.finishes hp hset hs).2 set' hset' hfin'

/-- The tracker returns a set with the packet that finishes it. -/
theorem Arriving.ingest_slot (h : Arriving parse k sets (pre ++ [i]))
    (hp : parse i.packet.bytes = some s) (hset : set ∈ sets) (hs : s ∈ set)
    (hholds : Holds s.key tracker (held parse s.key pre)) :
    (Finishes parse k set pre i →
      ((tracker.ingest parse i.packet i.completedAt).2.filterMap (returned? s.key)).map
        FecSetReady.dataShreds = [set]) ∧
    (¬Finishes parse k set pre i →
      ((tracker.ingest parse i.packet i.completedAt).2.filterMap (returned? s.key)).map
        FecSetReady.dataShreds = []) := by
  obtain ⟨hslot, hdata⟩ := h.layout.data set hset s hs
  obtain ⟨hsub, hall⟩ := h.received_iff hset hs
  have hfin := (h.finishes hp hset hs).1
  have hsnoc : received parse s.key ((pre ++ [i]).map Input.stamped) =
      received parse s.key (pre.map Input.stamped) ++ [s] := by
    unfold received
    rw [List.map_append, List.filterMap_append]
    simp [Input.stamped, dataShred?, hp, hdata, Option.filter]
  have hshort : ¬set ⊆ slotShreds parse k pre := by
    intro hmem
    have hnodup := h.nodup
    rw [slotShreds_snoc pre hp hslot hdata] at hnodup
    exact (List.nodup_append.mp hnodup).2.2 s (hmem hs) s (by simp) rfl
  have hset' := h.layout.isFecSet hset hs
  have hfull := hset'.full_iff (h.size set hset) hsub
  have hserve := (ingest_data parse (i := i.stamped) hholds hp hdata).2
  rw [h.of_append.held_eq hset hs hshort] at hserve
  rw [hsnoc] at hfull hsub hall
  constructor
  · intro hdone
    have hyes := hfull.mpr (hall.mpr hdone.1)
    rw [Gather.step_full hyes] at hserve
    rw [← hset'.collect_of_full (h.size set hset) hsub hyes]
    exact hserve
  · intro hnot
    have hno : ¬full (received parse s.key (pre.map Input.stamped) ++ [s]) :=
      fun hyes => hnot (hfin.mpr (hall.mp (hfull.mp hyes)))
    rw [Gather.step_short hno] at hserve
    exact hserve

/-! ## What the tracker gives out of a slot -/

def slotSet? (k : ℕ) : FecTracker.Output → Option (List Shred)
  | .send r => if r.slot = k then some r.dataShreds else none
  | _ => none

theorem key_of_given {r : FecSetReady}
    (h : .send r ∈ (tracker.ingest parse i.packet i.completedAt).2) :
    ∃ s, parse i.packet.bytes = some s ∧ (r.slot, r.fecSetIndex) = s.key := by
  unfold FecTracker.ingest at h
  cases hp : parse i.packet.bytes with
  | none => simp [hp] at h
  | some s =>
    rw [hp] at h
    dsimp only at h
    split at h
    · have hr := Effect.send.inj (List.mem_singleton.mp h)
      rw [hr]
      exact ⟨s, rfl, rfl⟩
    · simp at h

theorem slotSets_other (h : ∀ s, parse i.packet.bytes = some s → s.slot ≠ k) :
    (tracker.ingest parse i.packet i.completedAt).2.filterMap (slotSet? k) = [] := by
  rw [List.filterMap_eq_nil_iff]
  intro o ho
  cases o with
  | send r =>
    obtain ⟨s, hp, hkey⟩ := key_of_given ho
    have hslot : r.slot = s.slot := congrArg Prod.fst hkey
    simp [slotSet?, hslot, h s hp]
  | _ => rfl

theorem slotSets_shred (hp : parse i.packet.bytes = some s) (hslot : s.slot = k) :
    (tracker.ingest parse i.packet i.completedAt).2.filterMap (slotSet? k) =
      ((tracker.ingest parse i.packet i.completedAt).2.filterMap (returned? s.key)).map
        FecSetReady.dataShreds := by
  rw [List.map_filterMap]
  refine List.filterMap_congr fun o ho => ?_
  cases o with
  | send r =>
    obtain ⟨s', hp', hkey⟩ := key_of_given ho
    obtain rfl : s = s' := Option.some.inj (hp.symm.trans hp')
    have hr : r.slot = k := (congrArg Prod.fst hkey).trans hslot
    rw [slotSet?, returned?, if_pos hr, if_pos hkey]
    rfl
  | _ => rfl

/-- Without a data shred of the slot nothing new of it has come. -/
theorem slotShreds_skip (pre : List Input)
    (h : ∀ s, parse i.packet.bytes = some s → ¬(s.slot = k ∧ s.shredType = .data)) :
    slotShreds parse k (pre ++ [i]) = slotShreds parse k pre := by
  rw [slotShreds_append]
  have hskip : slotShreds parse k [i] = [] := by
    unfold slotShreds
    cases hp : parse i.packet.bytes with
    | none => simp [hp]
    | some s =>
      have hs := h s hp
      simp [hp, Option.filter, hs]
  rw [hskip, List.append_nil]

/-- A packet makes the tracker give out just the set that it finishes. -/
theorem Arriving.slotSets (h : Arriving parse k sets (pre ++ [i]))
    (hholds : ∀ key : FecKey, key.1 = k → Holds key tracker (held parse key pre)) :
    (∀ set ∈ sets, Finishes parse k set pre i →
      (tracker.ingest parse i.packet i.completedAt).2.filterMap (slotSet? k) = [set]) ∧
    ((∀ set ∈ sets, ¬Finishes parse k set pre i) →
      (tracker.ingest parse i.packet i.completedAt).2.filterMap (slotSet? k) = []) := by
  by_cases hnew : ∀ s, parse i.packet.bytes = some s → ¬(s.slot = k ∧ s.shredType = .data)
  · have hsame := slotShreds_skip pre hnew
    refine ⟨fun set _ hfin => absurd (hsame ▸ hfin.1) hfin.2, fun _ => ?_⟩
    by_cases hother : ∀ s, parse i.packet.bytes = some s → s.slot ≠ k
    · exact slotSets_other hother
    · obtain ⟨s, hp, hslot⟩ : ∃ s, parse i.packet.bytes = some s ∧ s.slot = k := by
        simpa using hother
      rw [slotSets_shred hp hslot, List.map_eq_nil_iff]
      exact (ingest_code parse (i := i.stamped) (hholds s.key hslot) hp
        fun hdata => hnew s hp ⟨hslot, hdata⟩).2
  · obtain ⟨s, hp, hslot, hdata⟩ : ∃ s, parse i.packet.bytes = some s ∧ s.slot = k ∧
        s.shredType = .data := by
      simpa using hnew
    have hmem : s ∈ slotShreds parse k (pre ++ [i]) := by
      rw [slotShreds_snoc pre hp hslot hdata]
      simp
    obtain ⟨set, hset, hs⟩ := List.mem_flatten.mp (h.mem hmem)
    obtain ⟨hyes, hno⟩ := h.ingest_slot hp hset hs (hholds s.key hslot)
    rw [slotSets_shred hp hslot]
    refine ⟨fun set' hset' hfin => ?_, fun hnone => hno (hnone set hset)⟩
    obtain rfl := (h.finishes hp hset hs).2 set' hset' hfin
    exact hyes hfin

/-- The tracker keeps holding what has come. -/
theorem holds_ingest {key : FecKey} (h : Holds key tracker (held parse key pre)) :
    Holds key (tracker.ingest parse i.packet i.completedAt).1 (held parse key (pre ++ [i])) := by
  have hrun := ((tracker_shows parse key).run h [i.stamped]).1
  have hheld : held parse key (pre ++ [i]) =
      ((gather full).run (held parse key pre) ([i.stamped].filterMap (dataShred? parse key))).1 := by
    unfold held received
    rw [List.map_append, List.filterMap_append, EventMachine.run_append]
    rfl
  rw [hheld]
  exact hrun

end
end SolanaBench.ShredStreamUdp
