import Mathlib.Data.List.Perm.Subperm
import Mathlib.Data.List.Sort
import SolanaBench.EntrySources.FecTracker
import SolanaBench.Lib.Gather
import SolanaBench.Lib.Projection

/-! What the tracker returns. A set is forgotten when it is returned, so further shreds of it
are collected anew: at one key the tracker gathers shreds until they are full. -/
namespace SolanaBench.ShredStreamUdp

/-! ## The shreds of one set -/

/-- The packet holds a data shred of set `k`. -/
def dataShred? (parse : ParseShred) (k : FecKey) (i : RawShredPacket × Instant) : Option Shred :=
  (parse i.1.bytes).filter fun s => s.key = k ∧ s.shredType = .data

/-- The data shreds received for set `k`. -/
def received (parse : ParseShred) (k : FecKey) (is : List (RawShredPacket × Instant)) :
    List Shred := is.filterMap (dataShred? parse k)

def returned? (k : FecKey) : FecTracker.Output → Option FecSetReady
  | .send r => if (r.slot, r.fecSetIndex) = k then some r else none
  | _ => none

/-- What the tracker returns of set `k`. -/
def returned (parse : ParseShred) (k : FecKey) (is : List (RawShredPacket × Instant)) :
    List FecSetReady := ((FecTracker.machine parse).run ∅ is).2.filterMap (returned? k)

/-- The shreds lie between the first of the set and `t`, and just those numbered `t` carry a
terminator flag. -/
def Terminated (k : FecKey) (t : U32) (ss : List Shred) : Prop :=
  ∀ s ∈ ss, (k.2 ≤ s.index ∧ s.index ≤ t) ∧ (s.terminates ↔ s.index = t)

/-- One received shred for each index of the set, in increasing order. -/
structure Whole (k : FecKey) (t : U32) (ss : List Shred) (r : FecSetReady) : Prop where
  indices : r.dataShreds.map (fun s => s.index.val) = List.range' k.2.val (t.val + 1 - k.2.val)
  mem : ∀ s ∈ r.dataShreds, s ∈ ss

structure Completion (parse : ParseShred) (is : List (RawShredPacket × Instant)) : Prop where
  once : ∀ k, (returned parse k is).length ≤ 1
  whole : ∀ k t, Terminated k t (received parse k is) → ∀ r ∈ returned parse k is,
    Whole k t (received parse k is) r

/-! ## Collecting shreds -/

/-- One shred for each index, the latest. -/
def collect (ss : List Shred) : SortedMap U32 Shred :=
  ss.foldl (fun m s => m.insert s.index s) ∅

/-- What the latest terminating shred announces. -/
def announced (ss : List Shred) : Option U32 :=
  ss.foldl (fun n s => if s.terminates then some (s.index - s.fecSetIndex + 1) else n) none

/-- As many as announced, in `u32`. -/
def full (ss : List Shred) : Bool :=
  ((announced ss).map fun n => decide (n.val ≤ (collect ss).size % 2 ^ 32)).getD false

section

variable {ss : List Shred} {s : Shred} {k : FecKey} {t : U32}

theorem collect_snoc (ss : List Shred) (s : Shred) :
    collect (ss ++ [s]) = (collect ss).insert s.index s := by
  simp [collect]

theorem announced_snoc (ss : List Shred) (s : Shred) : announced (ss ++ [s]) =
    if s.terminates then some (s.index - s.fecSetIndex + 1) else announced ss := by
  simp [announced]

theorem not_full_nil : ¬full [] := by decide

theorem mem_collect {x : U32 × Shred} (h : x ∈ (collect ss).entries) : x.2 ∈ ss ∧ x.1 = x.2.index := by
  induction ss using List.reverseRecOn with
  | nil => simp [collect, EmptyCollection.emptyCollection, SortedMap.empty] at h
  | append_singleton ss s ih =>
    rw [collect_snoc, SortedMap.mem_insert] at h
    rcases h with rfl | ⟨h, -⟩
    · simp
    · obtain ⟨hmem, hkey⟩ := ih h
      exact ⟨List.mem_append_left [s] hmem, hkey⟩

theorem collect_keys (ss : List Shred) :
    (collect ss).keys = ((collect ss).entries.map Prod.snd).map Shred.index := by
  rw [List.map_map]
  exact List.map_congr_left fun x hx => (mem_collect hx).2

/-- Each index that comes is held. -/
theorem mem_collect_keys (h : s ∈ ss) : s.index ∈ (collect ss).keys := by
  induction ss using List.reverseRecOn with
  | nil => simp at h
  | append_singleton ss s' ih =>
    rw [SortedMap.mem_keys_iff, collect_snoc]
    by_cases hkey : s.index = s'.index
    · exact ⟨s', by rw [hkey, SortedMap.get?_insert_self]⟩
    · rw [SortedMap.get?_insert_of_ne hkey]
      refine SortedMap.mem_keys_iff.mp (ih ?_)
      rcases List.mem_append.mp h with h | h
      · exact h
      · exact absurd (congrArg Shred.index (List.mem_singleton.mp h)) hkey

/-- What is announced comes from a terminating shred. -/
theorem mem_of_announced {n : U32} (h : announced ss = some n) :
    ∃ s ∈ ss, s.terminates ∧ n = s.index - s.fecSetIndex + 1 := by
  induction ss using List.reverseRecOn with
  | nil => simp [announced] at h
  | append_singleton ss s ih =>
    rw [announced_snoc] at h
    by_cases hs : s.terminates = true
    · rw [if_pos hs] at h
      exact ⟨s, by simp, hs, (Option.some.inj h).symm⟩
    · rw [if_neg hs] at h
      obtain ⟨s', hmem, hs'⟩ := ih h
      exact ⟨s', List.mem_append_left [s] hmem, hs'⟩

theorem full_iff : full ss ↔ ∃ n, announced ss = some n ∧ n.val ≤ (collect ss).size % 2 ^ 32 := by
  unfold full
  cases announced ss <;> simp

/-- Increasing numbers of an interval that are as many as it holds are all of it. -/
theorem eq_range'_of_length {l : List ℕ} {a n : ℕ} (hsorted : l.Pairwise (· < ·))
    (hmem : ∀ x ∈ l, a ≤ x ∧ x < a + n) (hlen : n ≤ l.length) : l = List.range' a n := by
  have hsub : l ⊆ List.range' a n := by
    intro x hx
    have hx' := hmem x hx
    rw [List.mem_range'_1]
    omega
  have hnodup : l.Nodup := hsorted.imp fun h => h.ne
  have hperm : l.Perm (List.range' a n) :=
    (hnodup.subperm hsub).perm_of_length_le (by rw [List.length_range']; exact hlen)
  exact hperm.eq_of_pairwise (fun x y _ _ hxy hyx => absurd hxy hyx.not_gt) hsorted
    List.pairwise_lt_range'

/-- The indices held of a terminated set are increasing and within its bounds. -/
theorem indices_collect (hterm : Terminated k t ss) :
    ((collect ss).keys.map Fin.val).Pairwise (· < ·) ∧
      ∀ x ∈ (collect ss).keys.map Fin.val, k.2.val ≤ x ∧ x < k.2.val + (t.val + 1 - k.2.val) := by
  refine ⟨List.pairwise_map.mpr (SortedMap.keys_sorted (m := collect ss)), fun x hx => ?_⟩
  obtain ⟨j, hj, rfl⟩ := List.mem_map.mp hx
  rw [collect_keys, List.map_map] at hj
  obtain ⟨e, he, rfl⟩ := List.mem_map.mp hj
  obtain ⟨⟨hlo, hhi⟩, -⟩ := hterm e.2 (mem_collect he).1
  have hlo' : k.2.val ≤ e.2.index.val := hlo
  have hhi' : e.2.index.val ≤ t.val := hhi
  rw [Function.comp_apply]
  omega

/-- The count that the terminating shred announces, where `u32` holds it. -/
theorem announced_val (hle : k.2 ≤ t) (hfits : t.val + 1 - k.2.val < 2 ^ 32) :
    (t - k.2 + 1).val = t.val + 1 - k.2.val := by
  have hle' : k.2.val ≤ t.val := hle
  have hsub : (t - k.2).val = t.val - k.2.val := Fin.sub_val_of_le hle
  have hone : (1 : U32).val = 1 := rfl
  rw [Fin.val_add, hsub, hone]
  omega

/-- A terminated set that is full holds as many shreds as it has indices, if `u32` can
count them. -/
theorem length_of_full (hkey : ∀ s ∈ ss, s.key = k) (hterm : Terminated k t ss) (hfull : full ss)
    (hfits : t.val + 1 - k.2.val < 2 ^ 32) : t.val + 1 - k.2.val ≤ (collect ss).size := by
  obtain ⟨n, hn, hle⟩ := full_iff.mp hfull
  obtain ⟨s, hs, hflag, rfl⟩ := mem_of_announced hn
  obtain ⟨⟨hlo, hhi⟩, hlast⟩ := hterm s hs
  have hset : s.fecSetIndex = k.2 := congrArg Prod.snd (hkey s hs)
  rw [hset, hlast.mp hflag, announced_val (hlo.trans hhi) hfits] at hle
  exact hle.trans (Nat.mod_le _ _)

/-- It is then one shred for each index. -/
theorem indices_of_full (hkey : ∀ s ∈ ss, s.key = k) (hterm : Terminated k t ss) (hfull : full ss)
    (hall : t.val + 1 - k.2.val = 2 ^ 32 → (collect ss).size = 2 ^ 32) :
    ((collect ss).entries.map Prod.snd).map (fun s => s.index.val) =
      List.range' k.2.val (t.val + 1 - k.2.val) := by
  obtain ⟨hsorted, hmem⟩ := indices_collect hterm
  have hlen : t.val + 1 - k.2.val ≤ ((collect ss).keys.map Fin.val).length := by
    have ht := t.isLt
    rw [List.length_map, SortedMap.keys, List.length_map]
    by_cases hfits : t.val + 1 - k.2.val < 2 ^ 32
    · exact length_of_full hkey hterm hfull hfits
    · have hwide : t.val + 1 - k.2.val = 2 ^ 32 := by omega
      rw [hwide]
      exact (hall hwide).ge
  have heq := eq_range'_of_length hsorted hmem hlen
  rw [collect_keys, List.map_map] at heq
  exact heq

/-! ## The tracker at one set -/

theorem file_data (st : FecSetState) (s : Shred) (at' : Instant) : (st.file s at').data =
    if s.shredType = .data then st.data.insert s.index s else st.data := by
  unfold FecSetState.file
  cases s.shredType <;> cases st.firstShredAt <;> rfl

theorem file_expectedDataCount (st : FecSetState) (s : Shred) (at' : Instant) :
    (st.file s at').expectedDataCount = if s.shredType = .data ∧ s.terminates then
      some (s.index - s.fecSetIndex + 1) else st.expectedDataCount := by
  unfold FecSetState.file
  cases s.shredType <;> cases st.firstShredAt <;> simp

/-- The entry of set `k` holds the shreds `held`, which are short of a full set. -/
structure Holds (k : FecKey) (sets : FecTracker) (held : List Shred) : Prop where
  data : ((sets.lookup k).getD {}).data = collect held
  expected : ((sets.lookup k).getD {}).expectedDataCount = announced held
  short : ¬full held

theorem Holds.dataComplete {sets : FecTracker} {held : List Shred} (h : Holds k sets held)
    (at' : Instant) (hdata : s.shredType = .data) :
    ((((sets.lookup k).getD {}).file s at').dataComplete = full (held ++ [s])) := by
  unfold FecSetState.dataComplete full
  rw [file_data, file_expectedDataCount, h.data, h.expected, announced_snoc, collect_snoc]
  simp [hdata]

/-- A coding shred completes nothing. -/
theorem Holds.not_dataComplete {sets : FecTracker} {held : List Shred} (h : Holds k sets held)
    (at' : Instant) (hcode : s.shredType ≠ .data) :
    ¬((((sets.lookup k).getD {}).file s at').dataComplete) := by
  have hshort := h.short
  unfold full at hshort
  unfold FecSetState.dataComplete
  rw [file_data, file_expectedDataCount, h.data, h.expected]
  simpa [hcode] using hshort

variable (parse : ParseShred)

/-- Other sets are not touched. -/
theorem ingest_other {sets : FecTracker} {i : RawShredPacket × Instant}
    (h : ∀ s, parse i.1.bytes = some s → s.key ≠ k) :
    (FecTracker.ingest parse sets i.1 i.2).1.lookup k = sets.lookup k ∧
      (FecTracker.ingest parse sets i.1 i.2).2.filterMap (returned? k) = [] := by
  unfold FecTracker.ingest
  cases hp : parse i.1.bytes with
  | none => exact ⟨rfl, rfl⟩
  | some s =>
    have hne := h s hp
    dsimp only
    split
    · refine ⟨AList.lookup_erase_ne (Ne.symm hne), ?_⟩
      have hkey : ((s.key.1, s.key.2) : FecKey) ≠ k := hne
      simp [returned?, FecSetState.ready, hkey]
    · exact ⟨AList.lookup_insert_ne (Ne.symm hne), rfl⟩

/-- A coding shred of the set. -/
theorem ingest_code {sets : FecTracker} {held : List Shred} {i : RawShredPacket × Instant}
    (h : Holds s.key sets held) (hp : parse i.1.bytes = some s) (hcode : s.shredType ≠ .data) :
    Holds s.key (FecTracker.ingest parse sets i.1 i.2).1 held ∧
      (FecTracker.ingest parse sets i.1 i.2).2.filterMap (returned? s.key) = [] := by
  unfold FecTracker.ingest
  rw [hp]
  dsimp only
  rw [if_neg (h.not_dataComplete i.1.receivedAt hcode)]
  refine ⟨⟨?_, ?_, h.short⟩, rfl⟩
  · rw [AList.lookup_insert, Option.getD_some, file_data, if_neg hcode, h.data]
  · rw [AList.lookup_insert, Option.getD_some, file_expectedDataCount, if_neg (by simp [hcode]),
      h.expected]

/-- A data shred of the set. -/
theorem ingest_data {sets : FecTracker} {held : List Shred} {i : RawShredPacket × Instant}
    (h : Holds s.key sets held) (hp : parse i.1.bytes = some s) (hdata : s.shredType = .data) :
    Holds s.key (FecTracker.ingest parse sets i.1 i.2).1 ((gather full).step held s).1 ∧
      ((FecTracker.ingest parse sets i.1 i.2).2.filterMap (returned? s.key)).map
          FecSetReady.dataShreds =
        ((gather full).step held s).2.map fun b => (collect b).entries.map Prod.snd := by
  have hdone := h.dataComplete i.1.receivedAt hdata
  have hfiled := file_data ((sets.lookup s.key).getD {}) s i.1.receivedAt
  rw [if_pos hdata, h.data, ← collect_snoc] at hfiled
  unfold FecTracker.ingest
  rw [hp]
  dsimp only
  rw [hdone]
  by_cases hfull : full (held ++ [s]) = true
  · rw [if_pos hfull, Gather.step_full hfull]
    refine ⟨⟨?_, ?_, not_full_nil⟩, ?_⟩
    · rw [AList.lookup_erase]
      rfl
    · rw [AList.lookup_erase]
      rfl
    · simp [returned?, FecSetState.ready, hfiled]
  · rw [if_neg hfull, Gather.step_short hfull]
    refine ⟨⟨?_, ?_, hfull⟩, rfl⟩
    · rw [AList.lookup_insert, Option.getD_some, hfiled]
    · rw [AList.lookup_insert, Option.getD_some, file_expectedDataCount, h.expected, announced_snoc]
      simp [hdata]

theorem tracker_shows (k : FecKey) : (FecTracker.machine parse).Shows (gather full) (Holds k)
    (dataShred? parse k) (fun o => (returned? k o).map FecSetReady.dataShreds)
    (fun b => (collect b).entries.map Prod.snd) where
  skip sets held i hi h := by
    rw [← List.map_filterMap]
    by_cases hother : ∀ s, parse i.1.bytes = some s → s.key ≠ k
    · obtain ⟨hlookup, hout⟩ := ingest_other parse hother
      refine ⟨⟨?_, ?_, h.short⟩, by rw [List.map_eq_nil_iff]; exact hout⟩
      · exact (congrArg (fun o => (o.getD {}).data) hlookup).trans h.data
      · exact (congrArg (fun o => (o.getD {}).expectedDataCount) hlookup).trans h.expected
    · obtain ⟨s, hp, rfl⟩ : ∃ s, parse i.1.bytes = some s ∧ s.key = k := by
        simpa using hother
      have hcode : s.shredType ≠ .data := by
        intro hdata
        simp [dataShred?, hp, hdata] at hi
      obtain ⟨hnext, hout⟩ := ingest_code parse h hp hcode
      exact ⟨hnext, by rw [List.map_eq_nil_iff]; exact hout⟩
  serve sets held i s hi h := by
    rw [← List.map_filterMap]
    obtain ⟨hp, hs⟩ := Option.filter_eq_some_iff.mp hi
    obtain ⟨rfl, hdata⟩ := of_decide_eq_true hs
    exact ingest_data parse h hp hdata

/-! ## Whole runs -/

/-- What is returned of a set are the batches gathered from its data shreds. -/
theorem dataShreds_returned (k : FecKey) (is : List (RawShredPacket × Instant)) :
    (returned parse k is).map FecSetReady.dataShreds =
      ((gather full).run [] (received parse k is)).2.map
        fun b => (collect b).entries.map Prod.snd := by
  have hstart : Holds k ∅ [] := ⟨rfl, rfl, not_full_nil⟩
  have hrun := ((tracker_shows parse k).run hstart is).2
  rw [← List.map_filterMap] at hrun
  exact hrun

theorem key_of_received {is : List (RawShredPacket × Instant)} (h : s ∈ received parse k is) :
    s.key = k := by
  obtain ⟨i, -, hi⟩ := List.mem_filterMap.mp h
  exact (of_decide_eq_true (Option.filter_eq_some_iff.mp hi).2).1

/-- No set is full again after the stretch of its shreds that first filled it, and a set of
`2 ^ 32` shreds, whose count wraps to 0, is not full before all of them have come. -/
structure FilledOnce (parse : ParseShred) (is : List (RawShredPacket × Instant)) : Prop where
  once : ∀ k, ¬∃ b p, Completes full b ∧ full p ∧ b ++ p <+: received parse k is
  wide : ∀ k t, Terminated k t (received parse k is) → t.val + 1 - k.2.val = 2 ^ 32 →
    ∀ b, Completes full b → b <+: received parse k is → (collect b).size = 2 ^ 32

/-- A returned set holds the shreds of a batch. -/
theorem batch_of_returned {is : List (RawShredPacket × Instant)} {r : FecSetReady}
    (h : r ∈ returned parse k is) : ∃ b ∈ ((gather full).run [] (received parse k is)).2,
      r.dataShreds = (collect b).entries.map Prod.snd := by
  have hmem : r.dataShreds ∈ (returned parse k is).map FecSetReady.dataShreds :=
    List.mem_map.mpr ⟨r, h, rfl⟩
  rw [dataShreds_returned] at hmem
  obtain ⟨b, hb, heq⟩ := List.mem_map.mp hmem
  exact ⟨b, hb, heq.symm⟩

theorem returned_of_batch {is : List (RawShredPacket × Instant)} {b : List Shred}
    (h : b ∈ ((gather full).run [] (received parse k is)).2) : ∃ r ∈ returned parse k is,
      r.dataShreds = (collect b).entries.map Prod.snd := by
  have hmem : (collect b).entries.map Prod.snd ∈
      ((gather full).run [] (received parse k is)).2.map
        fun b => (collect b).entries.map Prod.snd := List.mem_map.mpr ⟨b, h, rfl⟩
  rw [← dataShreds_returned] at hmem
  exact List.mem_map.mp hmem

theorem length_returned (k : FecKey) (is : List (RawShredPacket × Instant)) :
    (returned parse k is).length =
      ((gather full).run [] (received parse k is)).2.length := by
  have hlen := congrArg List.length (dataShreds_returned parse k is)
  simpa using hlen

/-- A batch of a terminated set is one shred for each index. -/
theorem whole_of_batch {is : List (RawShredPacket × Instant)} {b : List Shred} {r : FecSetReady}
    (hterm : Terminated k t (received parse k is)) (hcomplete : Completes full b)
    (hpre : b <+: received parse k is) (hr : r.dataShreds = (collect b).entries.map Prod.snd)
    (hall : t.val + 1 - k.2.val = 2 ^ 32 → (collect b).size = 2 ^ 32) :
    Whole k t (received parse k is) r := by
  have hin : ∀ s ∈ b, s ∈ received parse k is := fun s hs => hpre.subset hs
  constructor
  · rw [hr]
    exact indices_of_full (fun s hs => key_of_received parse (hin s hs))
      (fun s hs => hterm s (hin s hs)) hcomplete.isFull hall
  · intro s hs
    rw [hr] at hs
    obtain ⟨x, hx, rfl⟩ := List.mem_map.mp hs
    exact hin _ (mem_collect hx).1

end

/-- Each set is returned once, and complete, iff its shreds fill it only once: nothing that
comes after the set was filled fills it again. -/
theorem completion_iff (parse : ParseShred) (is : List (RawShredPacket × Instant)) :
    Completion parse is ↔ FilledOnce parse is := by
  have honce : (∀ k, (returned parse k is).length ≤ 1) ↔
      ∀ k, ¬∃ b p, Completes full b ∧ full p ∧ b ++ p <+: received parse k is := by
    refine forall_congr' fun k => ?_
    rw [length_returned]
    exact Gather.length_le_one_iff not_full_nil
  constructor
  · intro h
    refine ⟨honce.mp h.once, fun k t hterm hwide b hb hpre => ?_⟩
    have hne : b ≠ [] := by
      rintro rfl
      exact not_full_nil hb.isFull
    obtain ⟨r, hr, hshreds⟩ := returned_of_batch parse (Gather.mem_of_completes hb hne hpre)
    have hlen := congrArg List.length (h.whole k t hterm r hr).indices
    rw [hshreds, List.length_range', hwide] at hlen
    simpa [SortedMap.size] using hlen
  · intro h
    have hone := honce.mpr h.once
    refine ⟨hone, fun k t hterm r hr => ?_⟩
    obtain ⟨b, hb, hshreds⟩ := batch_of_returned parse hr
    have hlen := hone k
    rw [length_returned] at hlen
    obtain ⟨hcomplete, hpre⟩ := Gather.prefix_of_mem not_full_nil hlen hb
    exact whole_of_batch parse hterm hcomplete hpre hshreds fun hwide =>
      h.wide k t hterm hwide b hcomplete hpre

/-- The only shred of a set comes twice, and the set is returned twice. -/
theorem retransmission_completes_again : ¬∀ (parse : ParseShred)
    (is : List (RawShredPacket × Instant)), (∀ i ∈ is, ∀ s, parse i.1.bytes = some s →
      s.shredType = .data) → Completion parse is := by
  intro h
  let parse : ParseShred := fun bytes => some ⟨7, 0, 0, .data, true, false, bytes⟩
  have htwice := (h parse [(⟨[1], 0⟩, 1), (⟨[1], 5⟩, 6)]
    (by simp [parse])).once (7, 0)
  revert htwice
  decide +kernel

end SolanaBench.ShredStreamUdp
