import SolanaBench.LeaderMap.Cache
import SolanaBench.LeaderMap.Conservation
import SolanaBench.Lib.Projection

/-! What the cache is for: a map from epochs to snapshots. Every session of commands over the
directory prints what the same commands print over the map. -/
namespace SolanaBench.LeaderMap

abbrev Store := SortedMap ℕ CachedSnapshot

namespace Store

variable {F : Type}

/-- The snapshot of an epoch, or that of the last one. -/
def read (m : Store) : Option ℕ → Except CliError CachedSnapshot
  | some e =>
    match m.get? e with
    | none => .error (.read (Cache.snapshotPath e))
    | some snap => .ok snap
  | none =>
    match m.lastKeyValue with
    | none => .error .noCachedSnapshot
    | some last => .ok last.2

/-- Only a fetch that is forced replaces a snapshot. -/
def fetch (m : Store) (force : Bool) (answers : Answers) : Store × List (Line F) :=
  match answers.epochInfo with
  | .error e => (m, [.error (.service e)])
  | .ok (info, slotsInEpoch) =>
    if (m.get? info.epoch).isSome ∧ force = false then
      (m, [.alreadyCached (Cache.snapshotPath info.epoch)])
    else
      match answers.joined with
      | .error e => (m, [.error (.service e)])
      | .ok (raw, schedule) =>
        let validators := raw.filterMap mapRaw
        (m.insert info.epoch ⟨⟨info, validators, schedule⟩, answers.now, slotsInEpoch⟩,
          [.fetched info.epoch validators.length schedule.size (Cache.snapshotPath info.epoch)])

/-- The leaders of the slots from `start` to `stop`. -/
def within (slotMap : SlotMap) (start stop : ℕ) : List SlotEntry :=
  (slotMap.entries.filter fun e => start ≤ e.1 ∧ e.1 ≤ stop).map Prod.snd

def slots (snap : Except CliError CachedSnapshot) (range : String) : List (Line F) :=
  match Cli.parseRange range with
  | .error e => [.error e]
  | .ok (start, stop) =>
    if stop < start then [.error .endBeforeStart]
    else
      match snap with
      | .error e => [.error e]
      | .ok snap =>
        let entries := within (buildSlotMap snap.toEpochSnapshot) start stop
        if entries = [] then [.noSlots start stop] else [.slotRange entries]

def machine (f : Float64 F) (serde : SerdeJson) : EventMachine Store Input (Line F) where
  step m i :=
    match i.command with
    | .fetch force => m.fetch force i.answers
    | .summary epoch => (m, Cli.summaryCmd f (m.read epoch))
    | .atSlot slot epoch => (m, Cli.atCmd (m.read epoch) slot)
    | .slots range epoch => (m, slots (m.read epoch) range)
    | .exportJson epoch => (m, Cli.exportCmd serde (m.read epoch))

end Store

/-! ## File names -/

namespace Cache

theorem epochOf_snapshotPath {epoch : ℕ} (h : epoch < 2 ^ 64) :
    epochOf (snapshotPath epoch) = some epoch := by
  have hstart : (nameStart ++ Nat.toDigits 10 epoch ++ nameEnd).dropPrefix? nameStart =
      some (Nat.toDigits 10 epoch ++ nameEnd) := by
    rw [List.append_assoc]
    exact List.dropPrefix?_append_of_beq _ (BEq.refl nameStart)
  have hend : (Nat.toDigits 10 epoch ++ nameEnd).dropSuffix? nameEnd =
      some (Nat.toDigits 10 epoch) :=
    List.dropSuffix?_eq_some_iff.mpr ⟨nameEnd, rfl, BEq.refl nameEnd⟩
  unfold epochOf snapshotPath
  rw [String.toList_ofList, hstart]
  dsimp only
  rw [hend]
  exact Text.parseU64_toDigits h

theorem snapshotPath_injective : Function.Injective snapshotPath := by
  intro e e' h
  have hlist := String.ofList_injective h
  have hdigits : Nat.toDigits 10 e = Nat.toDigits 10 e' :=
    List.append_cancel_left (List.append_cancel_right hlist)
  rw [← Nat.ofDigitChars_ten_toDigits (n := e), hdigits, Nat.ofDigitChars_ten_toDigits]

theorem newer_some (a : ℕ) (name : String) :
    newer (some a) name = some ((epochOf name).toList.foldl max a) := by
  unfold newer
  cases epochOf name with
  | none => rfl
  | some epoch =>
    dsimp only [Option.toList, List.foldl]
    by_cases hlt : a < epoch
    · simp [hlt, max_eq_right hlt.le]
    · simp [hlt, max_eq_left (Nat.le_of_not_lt hlt)]

theorem foldl_newer (names : List String) (a : ℕ) :
    names.foldl newer (some a) = some ((names.filterMap epochOf).foldl max a) := by
  induction names generalizing a with
  | nil => rfl
  | cons name names ih =>
    rw [List.foldl_cons, newer_some, ih]
    cases hname : epochOf name with
    | none =>
      rw [List.filterMap_cons_none hname]
      rfl
    | some epoch =>
      rw [List.filterMap_cons_some hname]
      rfl

/-- The loop finds the greatest number. -/
theorem newest_eq_max? (names : List String) : newest names = (names.filterMap epochOf).max? := by
  unfold newest
  induction names with
  | nil => rfl
  | cons name names ih =>
    rw [List.foldl_cons]
    unfold newer
    cases hname : epochOf name with
    | none =>
      rw [List.filterMap_cons_none hname]
      exact ih
    | some epoch =>
      rw [List.filterMap_cons_some hname]
      exact foldl_newer names epoch

end Cache

/-! ## The directory represents the map -/

/-- Each snapshot is in the file of its epoch, and no other file has an epoch's number. -/
structure Represents (serde : SerdeJson) (dir : Dir) (m : Store) : Prop where
  files : ∀ e, dir.lookup (Cache.snapshotPath e) = (m.get? e).map serde.render
  names : ∀ name ∈ dir, ∀ e, Cache.epochOf name = some e → name = Cache.snapshotPath e
  readable : ∀ e snap, m.get? e = some snap →
    e < 2 ^ 64 ∧ serde.parse (serde.render snap) = some snap

/-- A snapshot that the answers to a fetch make is read back from its text. -/
def Readable (serde : SerdeJson) (i : Input) : Prop :=
  ∀ info slotsInEpoch raw schedule, i.answers.epochInfo = .ok (info, slotsInEpoch) →
    i.answers.joined = .ok (raw, schedule) → info.epoch < 2 ^ 64 ∧
      let snap : CachedSnapshot :=
        ⟨⟨info, raw.filterMap mapRaw, schedule⟩, i.answers.now, slotsInEpoch⟩
      serde.parse (serde.render snap) = some snap

section

variable {F : Type} {serde : SerdeJson} {dir : Dir} {m : Store}

theorem represents_empty (serde : SerdeJson) : Represents serde ∅ ∅ where
  files _ := rfl
  names name h := absurd h (AList.notMem_empty name)
  readable e snap h := by cases h

theorem Represents.mem_iff (h : Represents serde dir m) (e : ℕ) :
    Cache.snapshotPath e ∈ dir ↔ (m.get? e).isSome := by
  rw [← AList.lookup_isSome, h.files, Option.isSome_map]

theorem Represents.load (h : Represents serde dir m) (e : ℕ) :
    Cache.load serde dir e = m.read (some e) := by
  unfold Cache.load Store.read
  dsimp only
  rw [h.files]
  cases hsnap : m.get? e with
  | none => rfl
  | some snap =>
    dsimp only [Option.map_some]
    rw [(h.readable e snap hsnap).2]

/-- The numbers in the directory are the epochs. -/
theorem Represents.mem_epochs (h : Represents serde dir m) (readDir : ReadDir) (e : ℕ) :
    e ∈ (readDir.order dir.keys).filterMap Cache.epochOf ↔ (m.get? e).isSome := by
  rw [List.mem_filterMap, ← h.mem_iff]
  constructor
  · rintro ⟨name, hname, he⟩
    have hin : name ∈ dir := AList.mem_keys.mp ((readDir.perm dir.keys).mem_iff.mp hname)
    exact h.names name hin e he ▸ hin
  · intro hin
    obtain ⟨snap, hsnap⟩ := Option.isSome_iff_exists.mp ((h.mem_iff e).mp hin)
    exact ⟨_, (readDir.perm dir.keys).mem_iff.mpr (AList.mem_keys.mpr hin),
      Cache.epochOf_snapshotPath (h.readable e snap hsnap).1⟩

/-- The loop over the directory finds the last epoch. -/
theorem Represents.newest_eq (h : Represents serde dir m) (readDir : ReadDir) :
    Cache.newest (readDir.order dir.keys) = m.lastKeyValue.map Prod.fst := by
  have hget : ∀ e ∈ (readDir.order dir.keys).filterMap Cache.epochOf,
      ∃ snap, (e, snap) ∈ m.entries := fun e he => by
    obtain ⟨snap, hsnap⟩ := Option.isSome_iff_exists.mp ((h.mem_epochs readDir e).mp he)
    exact ⟨snap, SortedMap.get?_eq_some_iff.mp hsnap⟩
  rw [Cache.newest_eq_max?]
  cases hlast : m.lastKeyValue with
  | none =>
    rw [Option.map_none, List.max?_eq_none_iff]
    refine List.eq_nil_iff_forall_not_mem.mpr fun e he => ?_
    obtain ⟨snap, hsnap⟩ := hget e he
    rw [SortedMap.lastKeyValue_eq_none.mp hlast] at hsnap
    cases hsnap
  | some last =>
    have hin : (m.get? last.1).isSome := by
      rw [SortedMap.get?_eq_some_iff.mpr (List.mem_of_getLast? hlast)]
      rfl
    refine List.max?_eq_some_iff.mpr ⟨(h.mem_epochs readDir last.1).mpr hin, fun e he => ?_⟩
    obtain ⟨snap, hsnap⟩ := hget e he
    exact SortedMap.le_lastKeyValue hlast _ hsnap

theorem Represents.loadSnapshot (h : Represents serde dir m) (readDir : ReadDir)
    (epoch : Option ℕ) : Cli.loadSnapshot serde readDir dir epoch = m.read epoch := by
  cases epoch with
  | some e => exact h.load e
  | none =>
    unfold Cli.loadSnapshot Cache.latestSnapshot Store.read
    rw [h.newest_eq]
    cases hlast : m.lastKeyValue with
    | none => rfl
    | some last =>
      have hread : m.read (some last.1) = .ok last.2 := by
        unfold Store.read
        dsimp only
        rw [SortedMap.get?_eq_some_iff.mpr (List.mem_of_getLast? hlast)]
      dsimp only [Option.map_some]
      rw [h.load, hread]
      rfl

theorem slotsCmd_eq (snap : Except CliError CachedSnapshot) (range : String) :
    (Cli.slotsCmd snap range : List (Line F)) = Store.slots snap range := by
  unfold Cli.slotsCmd Store.slots
  cases Cli.parseRange range with
  | error e => rfl
  | ok bounds =>
    obtain ⟨start, stop⟩ := bounds
    dsimp only
    split
    · rfl
    · next hle =>
      have hbound : ∀ k, k < start + (stop - start + 1) ↔ k ≤ stop := fun k => by omega
      cases snap with
      | error e => rfl
      | ok snap =>
        dsimp only
        rw [SortedMap.filterMap_get?_range']
        simp only [hbound]
        rfl

/-- A fetch writes the file of its epoch. -/
theorem Represents.insert (h : Represents serde dir m) {snap : CachedSnapshot}
    (hbound : snap.epoch.epoch < 2 ^ 64) (hread : serde.parse (serde.render snap) = some snap) :
    Represents serde (Cache.save serde dir snap) (SortedMap.insert m snap.epoch.epoch snap) where
  files e := by
    unfold Cache.save
    rw [SortedMap.get?_insert]
    split
    · next heq => rw [heq, AList.lookup_insert, Option.map_some]
    · next hne =>
      rw [AList.lookup_insert_ne (Cache.snapshotPath_injective.ne hne)]
      exact h.files e
  names name hname e he := by
    rcases (AList.mem_insert _).mp hname with rfl | hname
    · rw [Cache.epochOf_snapshotPath hbound] at he
      rw [Option.some.inj he]
    · exact h.names name hname e he
  readable e s hs := by
    rw [SortedMap.get?_insert] at hs
    split at hs
    · next heq =>
      obtain rfl := Option.some.inj hs
      exact ⟨heq ▸ hbound, hread⟩
    · exact h.readable e s hs

theorem Represents.fetch (h : Represents serde dir m) (force : Bool) (i : Input)
    (hread : Readable serde i) :
    Represents serde (Cli.fetch (F := F) serde dir force i.answers).1
        (Store.fetch (F := F) m force i.answers).1 ∧
      (Cli.fetch serde dir force i.answers).2 = (Store.fetch (F := F) m force i.answers).2 := by
  unfold Cli.fetch Store.fetch
  cases hinfo : i.answers.epochInfo with
  | error e => exact ⟨h, rfl⟩
  | ok answer =>
    obtain ⟨info, slotsInEpoch⟩ := answer
    dsimp only
    simp only [h.mem_iff]
    split
    · exact ⟨h, rfl⟩
    · cases hjoined : i.answers.joined with
      | error e => exact ⟨h, rfl⟩
      | ok answer =>
        obtain ⟨raw, schedule⟩ := answer
        obtain ⟨hbound, hback⟩ := hread info slotsInEpoch raw schedule hinfo hjoined
        exact ⟨h.insert hbound hback, rfl⟩

theorem Represents.step (f : Float64 F) (h : Represents serde dir m) (i : Input)
    (hread : Readable serde i) :
    Represents serde ((Cli.machine f serde).step dir i).1 ((Store.machine f serde).step m i).1 ∧
      ((Cli.machine f serde).step dir i).2 = ((Store.machine f serde).step m i).2 := by
  unfold Cli.machine Store.machine
  dsimp only
  cases i.command with
  | fetch force => exact h.fetch force i hread
  | summary epoch => exact ⟨h, congrArg (Cli.summaryCmd f) (h.loadSnapshot i.readDir epoch)⟩
  | atSlot slot epoch =>
    exact ⟨h, congrArg (Cli.atCmd · slot) (h.loadSnapshot i.readDir epoch)⟩
  | slots range epoch =>
    refine ⟨h, ?_⟩
    dsimp only
    rw [slotsCmd_eq, h.loadSnapshot]
  | exportJson epoch => exact ⟨h, congrArg (Cli.exportCmd serde) (h.loadSnapshot i.readDir epoch)⟩

end

/-- Every session over a directory that represents a map prints what the same session over the map
prints, and leaves the directory representing it. -/
theorem cli_refines_store {F : Type} (f : Float64 F) (serde : SerdeJson) {dir : Dir} {m : Store}
    (h : Represents serde dir m) (is : List Input) (hread : ∀ i ∈ is, Readable serde i) :
    Represents serde ((Cli.machine f serde).run dir is).1 ((Store.machine f serde).run m is).1 ∧
      ((Cli.machine f serde).run dir is).2 = ((Store.machine f serde).run m is).2 :=
  EventMachine.run_lockstep (fun _ _ i hi hrep => hrep.step f i hi) h hread

/-! A session that finds nothing, fetches epoch 7 once and asks for some of its slots. -/

def sampleAnswers : Answers where
  epochInfo := .ok (⟨7, 3_024_010, 10⟩, 432_000)
  joined := .ok
    ([⟨some "VAL", none, none, some 100, some "DE", none, some 64_500, some "ORG", none⟩,
      ⟨none, none, none, none, none, none, none, none, none⟩],
    (∅ : SortedMap String (List ℕ)).insert "VAL" [0, 11])
  now := 0

def sampleSnapshot : CachedSnapshot where
  epoch := ⟨7, 3_024_010, 10⟩
  validators := [⟨"VAL", none, none, 100, some "DE", none, some 64_500, some "ORG", none⟩]
  schedule := (∅ : SortedMap String (List ℕ)).insert "VAL" [0, 11]
  fetchedAt := 0
  slotsInEpoch := 432_000

def sampleText : String := "\n".intercalate
  ["\x7b", "  \"fetched_at\": \"1970-01-01T00:00:00Z\",", "  \"epoch\": \x7b",
    "    \"epoch\": 7,", "    \"absolute_slot\": 3024010,", "    \"slot_index\": 10,",
    "    \"slots_in_epoch\": 432000", "  \x7d,", "  \"validators\": [", "    \x7b",
    "      \"identity\": \"VAL\",", "      \"name\": null,", "      \"vote_account\": null,",
    "      \"active_stake_lamports\": 100,", "      \"country_code\": \"DE\",",
    "      \"data_center_key\": null,", "      \"asn\": 64500,",
    "      \"asn_organization\": \"ORG\",", "      \"ip\": null", "    \x7d", "  ],",
    "  \"schedule\": \x7b", "    \"VAL\": [", "      0,", "      11", "    ]", "  \x7d", "\x7d"]

def sampleSerde : SerdeJson where
  render _ := sampleText
  parse text := if text = sampleText then some sampleSnapshot else none

def unordered : ReadDir := ⟨id, fun names => List.Perm.refl names⟩

def sampleSession : List Input :=
  [Command.summary none, .fetch false, .fetch false, .atSlot 3_024_011 none,
    .slots "3024000..3024005" (some 7)].map fun command => ⟨command, unordered, sampleAnswers⟩

theorem parse_sampleText (snap : CachedSnapshot) :
    sampleSerde.parse (sampleSerde.render snap) = some sampleSnapshot := by
  simp [sampleSerde]

theorem readable_sampleSession : ∀ i ∈ sampleSession, Readable sampleSerde i := by
  intro i hi info slotsInEpoch raw schedule hinfo hjoined
  obtain ⟨command, -, rfl⟩ := List.mem_map.mp hi
  obtain ⟨rfl, rfl⟩ := Prod.mk.inj (Except.ok.inj hinfo)
  obtain ⟨rfl, rfl⟩ := Prod.mk.inj (Except.ok.inj hjoined)
  exact ⟨by decide, parse_sampleText _⟩

theorem cli_refines_store_sample :
    ((Cli.machine basisPoints sampleSerde).run ∅ sampleSession).2 =
        ((Store.machine basisPoints sampleSerde).run ∅ sampleSession).2 ∧
      ((Cli.machine basisPoints sampleSerde).run ∅ sampleSession).1.keys =
        ["leader-map-epoch-7.json"] :=
  ⟨(cli_refines_store basisPoints sampleSerde (represents_empty sampleSerde) sampleSession
    readable_sampleSession).2, by decide +kernel⟩

/-! ## A range of slots -/

/-- Two decimal numbers, with a plus sign or not, around the separator. -/
def IsRange (input : String) (start stop : ℕ) : Prop :=
  ∃ first last, input.toList = first ++ ['.', '.'] ++ last ∧
    (∃ ds, (first = ds ∨ first = '+' :: ds) ∧ Text.IsDecimal ds start) ∧
      ∃ ds, (last = ds ∨ last = '+' :: ds) ∧ Text.IsDecimal ds stop

theorem parseRange_iff {input : String} {start stop : ℕ} :
    Cli.parseRange input = .ok (start, stop) ↔ IsRange input start stop := by
  have hdot : ∀ cs n, Text.parseU64 cs = some n → '.' ∉ cs := fun cs n hn =>
    Text.notMem_of_parseU64 hn (by decide) (by decide)
  unfold Cli.parseRange IsRange
  constructor
  · intro h
    split at h
    · cases h
    · next first last hsplit =>
      split at h
      · cases h
      · split at h
        · cases h
        · next hfirst =>
          split at h
          · cases h
          · next hlast =>
            obtain ⟨rfl, rfl⟩ := Prod.mk.inj (Except.ok.inj h)
            exact ⟨first, last, Text.eq_append_of_splitOnce hsplit, Text.parseU64_iff.mp hfirst,
              Text.parseU64_iff.mp hlast⟩
  · rintro ⟨first, last, heq, hfirst, hlast⟩
    have hstart := Text.parseU64_iff.mpr hfirst
    have hstop := Text.parseU64_iff.mpr hlast
    rw [heq, Text.splitOnce_append_of_notMem (hdot first start hstart)]
    dsimp only
    rw [Text.splitOnce_eq_none (hdot last stop hstop), hstart]
    dsimp only
    rw [hstop]
    rfl

/-- A slot that the schedule gives to some leader. -/
def Led (snap : EpochSnapshot) (slot : ℕ) : Prop :=
  ∃ leader ∈ snap.schedule.entries, ∃ idx ∈ leader.2,
    slot = (snap.epoch.epochFirstSlot + idx) % 2 ^ 64

/-- One line for each slot of the range that has a leader, in order. -/
structure Printed (snap : EpochSnapshot) (start stop : ℕ) (entries : List SlotEntry) : Prop where
  ascending : entries.Pairwise fun a b => a.absoluteSlot < b.absoluteSlot
  scheduled : ∀ e ∈ entries, start ≤ e.absoluteSlot ∧ e.absoluteSlot ≤ stop ∧
    IsScheduled snap e.absoluteSlot e
  complete : ∀ slot, start ≤ slot → slot ≤ stop → Led snap slot →
    ∃ e ∈ entries, e.absoluteSlot = slot

section

variable {snap : EpochSnapshot}

/-- A slot with a leader is in the map: the iteration for that leader's index puts it there. -/
theorem isSome_buildSlotMap {slot : ℕ} (h : Led snap slot) :
    ((buildSlotMap snap).get? slot).isSome := by
  obtain ⟨leader, hleader, idx, hidx, hslot⟩ := h
  unfold buildSlotMap
  refine List.foldl_of_mem (P := fun out : SlotMap => (out.get? slot).isSome) hleader ?_ ?_ ∅
  · intro out
    refine List.foldl_of_mem (P := fun out : SlotMap => (out.get? slot).isSome) hidx ?_ ?_ out
    · intro out
      rw [hslot, SortedMap.get?_insert_self]
      rfl
    · exact fun out idx hout => SortedMap.isSome_get?_insert hout
  · intro out other hout
    exact List.foldlRecOn (motive := fun out : SlotMap => (out.get? slot).isSome) other.2 _ hout
      fun out hout idx _ => SortedMap.isSome_get?_insert hout

/-- The entry of a slot names it. -/
theorem absoluteSlot_of_mem {x : ℕ × SlotEntry} (h : x ∈ (buildSlotMap snap).entries) :
    x.2.absoluteSlot = x.1 ∧ IsScheduled snap x.1 x.2 := by
  have hsched := get?_buildSlotMap (SortedMap.get?_eq_some_iff.mpr h)
  have hslot : x.2.absoluteSlot = x.1 := by
    obtain ⟨_, -, _, -, -, heq⟩ := hsched
    rw [heq]
    rfl
  exact ⟨hslot, hsched⟩

theorem printed_within (snap : EpochSnapshot) (start stop : ℕ) :
    Printed snap start stop (Store.within (buildSlotMap snap) start stop) where
  ascending := by
    unfold Store.within
    refine List.pairwise_map.mpr ?_
    refine List.Pairwise.imp_of_mem ?_ ((buildSlotMap snap).sorted.sublist List.filter_sublist)
    intro a b ha hb hab
    rw [(absoluteSlot_of_mem (List.mem_of_mem_filter ha)).1,
      (absoluteSlot_of_mem (List.mem_of_mem_filter hb)).1]
    exact hab
  scheduled e he := by
    obtain ⟨x, hx, rfl⟩ := List.mem_map.mp he
    obtain ⟨hmem, hrange⟩ := List.mem_filter.mp hx
    obtain ⟨hslot, hsched⟩ := absoluteSlot_of_mem hmem
    obtain ⟨hstart, hstop⟩ := of_decide_eq_true hrange
    rw [hslot]
    exact ⟨hstart, hstop, hsched⟩
  complete slot hstart hstop hled := by
    obtain ⟨e, he⟩ := Option.isSome_iff_exists.mp (isSome_buildSlotMap hled)
    have hmem := SortedMap.get?_eq_some_iff.mp he
    refine ⟨e, List.mem_map.mpr ⟨(slot, e), List.mem_filter.mpr ⟨hmem, ?_⟩, rfl⟩,
      (absoluteSlot_of_mem hmem).1⟩
    exact decide_eq_true ⟨hstart, hstop⟩

end

/-- A table is printed just for the ranges with a leader in them, and it has a line for each slot
that has one. -/
theorem slots_printed {F : Type} (snap : CachedSnapshot) (range : String) :
    (∀ entries, (Cli.slotsCmd (.ok snap) range : List (Line F)) = [.slotRange entries] →
      ∃ start stop, IsRange range start stop ∧ start ≤ stop ∧
        Printed snap.toEpochSnapshot start stop entries) ∧
    ∀ start stop, IsRange range start stop → start ≤ stop →
      (∃ slot, start ≤ slot ∧ slot ≤ stop ∧ Led snap.toEpochSnapshot slot) →
        ∃ entries, (Cli.slotsCmd (.ok snap) range : List (Line F)) = [.slotRange entries] := by
  rw [slotsCmd_eq]
  unfold Store.slots
  constructor
  · intro entries h
    cases hrange : Cli.parseRange range with
    | error e =>
      rw [hrange] at h
      cases h
    | ok bounds =>
      obtain ⟨start, stop⟩ := bounds
      rw [hrange] at h
      dsimp only at h
      split at h
      · cases h
      · next hle =>
        split at h
        · cases h
        · obtain rfl := Line.slotRange.inj (List.singleton_inj.mp h)
          exact ⟨start, stop, parseRange_iff.mp hrange, Nat.le_of_not_lt hle, printed_within _ _ _⟩
  · rintro start stop hrange hle ⟨slot, hstart, hstop, hled⟩
    obtain ⟨e, he, -⟩ := (printed_within snap.toEpochSnapshot start stop).complete slot hstart hstop
      hled
    rw [parseRange_iff.mpr hrange]
    dsimp only
    rw [if_neg (Nat.not_lt.mpr hle), if_neg (List.ne_nil_of_mem he)]
    exact ⟨_, rfl⟩

/-- Of the six slots one has a leader. -/
theorem slots_printed_sample :
    (Cli.slotsCmd (.ok sampleSnapshot) "3024000..3024005" : List (Line ℕ)) =
        [.slotRange [slotEntry 3_024_000 "VAL" sampleSnapshot.validators.head?]] ∧
      ∃ start stop, IsRange "3024000..3024005" start stop ∧ start ≤ stop ∧
        Printed sampleSnapshot.toEpochSnapshot start stop
          [slotEntry 3_024_000 "VAL" sampleSnapshot.validators.head?] :=
  ⟨rfl, (slots_printed (F := ℕ) sampleSnapshot "3024000..3024005").1 _ rfl⟩

end SolanaBench.LeaderMap
