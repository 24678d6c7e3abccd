import Mathlib.Data.Finset.Prod
import SolanaBench.TickTrigger.RecorderRows

/-! The final report of a run: how the sends of the active window are broken down, and
what each sender won and lost to the others. -/
namespace SolanaBench.TickTrigger.FinalReport

open Recorder
open TriggerEngine (TriggerId)

/-- A line of the table of wins; the share and the averages, floats, are left out. -/
structure SenderLine where
  senderId : ℕ
  name : String
  wins : ℕ
  losesToOther : ℕ
  deriving DecidableEq, Repr

/-- The sections on triggers, sends and senders; the percentages, floats, are left out. -/
structure Report where
  triggersFired : ℕ
  triggersLanded : ℕ
  triggersLost : ℕ
  sendsTotal : ℕ
  sendsLanded : ℕ
  sendsUnknown : ℕ
  losingSiblings : ℕ
  lostNoLand : ℕ
  sendsSendErr : ℕ
  perSender : List SenderLine
  deriving DecidableEq, Repr

/-- `cfg.senders` collected into a map; a later sender of the same id replaces an earlier one. -/
def senderNameById (senders : List (ℕ × String)) : AList (fun _ : ℕ => String) :=
  senders.foldl (fun names sc => names.insert sc.1 sc.2) ∅

def senderLine (names : AList (fun _ : ℕ => String)) (triggersLanded : ℕ) (ps : PerSenderStats) :
    SenderLine where
  senderId := ps.senderId
  name := (names.lookup ps.senderId).getD ""
  wins := ps.landed
  losesToOther := triggersLanded - ps.landed

/-- The report of a summary. In nonce mode one losing sibling is counted for each landed
trigger, and what is left of the unknown sends is put down as lost. -/
def report (nonceEnabled : Bool) (senders : List (ℕ × String)) (active : ActiveWindowSummary) :
    Report :=
  let losingSiblings := if nonceEnabled then active.triggersLanded else 0
  { triggersFired := active.triggersAttempted
    triggersLanded := active.triggersLanded
    triggersLost := active.triggersAttempted - active.triggersLanded
    sendsTotal := active.attemptsTotal
    sendsLanded := active.attemptsLanded
    sendsUnknown := active.attemptsUnknownPending
    losingSiblings
    lostNoLand := active.attemptsUnknownPending - losingSiblings
    sendsSendErr := active.attemptsSendError
    perSender := active.perSender.map (senderLine (senderNameById senders) active.triggersLanded) }

/-- The report printed after the recorder has run. -/
def runReport (cfg : RecorderConfig) (senders : List (ℕ × String)) (is : List Input) : Report :=
  report true senders ((runLoop cfg is).1.agg.intoSummary cfg.anchor)

/-! ## What the breakdown should say -/

/-- Each trigger is registered once for each of the senders. -/
structure Races (senders : Finset ℕ) (is : List Input) : Prop where
  keys : ((registrations is).map RegisterEvent.key).Nodup
  own : ∀ reg ∈ registrations is, reg.senderId ∈ senders
  each : ∀ reg ∈ registrations is, ∀ s ∈ senders,
    ∃ reg' ∈ registrations is, reg'.key = (reg.triggerId, s)

/-- No trigger has two landed attempts. -/
def LandsOnce (rows : List TriggerRecord) : Prop :=
  ((rows.filter fun row => row.finalOutcome = .landed).map TriggerRecord.triggerId).Nodup

/-- The attempts with an outcome whose trigger has a landed attempt. -/
def siblings (o : FinalOutcome) (rows : List TriggerRecord) : ℕ :=
  rows.countP fun row => row.finalOutcome = o ∧ row.triggerId ∈ landedTriggers rows

/-- Another sender's attempt for the trigger of `reg` landed. -/
def LostTo (rows : List TriggerRecord) (reg : RegisterEvent) : Prop :=
  ∃ row ∈ rows, row.finalOutcome = .landed ∧ row.triggerId = reg.triggerId ∧
    row.senderId ≠ reg.senderId

instance (rows : List TriggerRecord) (reg : RegisterEvent) : Decidable (LostTo rows reg) :=
  inferInstanceAs (Decidable (∃ row ∈ rows, _))

/-- The breakdown of the report is that of the attempts and their rows. -/
structure Faithful (is : List Input) (rows : List TriggerRecord) (r : Report) : Prop where
  losing : r.losingSiblings = siblings .unknownPending rows
  lost : r.lostNoLand = rows.countP fun row =>
    row.finalOutcome = .unknownPending ∧ row.triggerId ∉ landedTriggers rows
  loses : ∀ line ∈ r.perSender, line.losesToOther =
    (registrations is).countP fun reg => reg.senderId = line.senderId ∧ LostTo rows reg
  lines : ∀ reg ∈ registrations is, ∃ line ∈ r.perSender, line.senderId = reg.senderId

/-! ## Counting the rows -/

section Counting

variable {rows : List TriggerRecord} {is : List Input} {senders : Finset ℕ}

/-- The rows of the landed triggers by outcome. -/
theorem countP_landed (L : Finset TriggerId) (rows : List TriggerRecord) :
    (rows.countP fun row => row.triggerId ∈ L) =
      (rows.countP fun row => row.finalOutcome = .landed ∧ row.triggerId ∈ L) +
        (rows.countP fun row => row.finalOutcome = .sendError ∧ row.triggerId ∈ L) +
        (rows.countP fun row => row.finalOutcome = .unknownPending ∧ row.triggerId ∈ L) := by
  induction rows with
  | nil => rfl
  | cons row rows ih =>
    simp only [List.countP_cons, ih]
    cases row.finalOutcome <;> by_cases hL : row.triggerId ∈ L <;> simp [hL] <;> omega

/-- The unknown attempts are siblings of a landed one or lost. -/
theorem pendings_eq (rows : List TriggerRecord) :
    pendings rows = siblings .unknownPending rows + rows.countP fun row =>
      row.finalOutcome = .unknownPending ∧ row.triggerId ∉ landedTriggers rows := by
  have hsplit := List.countP_eq_countP_filter_add rows
    (fun row => decide (row.finalOutcome = .unknownPending))
    (fun row => decide (row.triggerId ∈ landedTriggers rows))
  rw [List.countP_filter, List.countP_filter] at hsplit
  simpa [pendings, siblings] using hsplit

/-- Where no trigger lands twice, the landed attempts are as many as the landed triggers. -/
theorem LandsOnce.countP_eq (h : LandsOnce rows) :
    (rows.countP fun row => row.finalOutcome = .landed) = (landedTriggers rows).card := by
  rw [landedTriggers, List.toFinset_card_of_nodup h, List.length_map, List.countP_eq_length_filter]

theorem LandsOnce.siblings_landed (h : LandsOnce rows) :
    siblings .landed rows = (landedTriggers rows).card := by
  rw [← h.countP_eq]
  refine List.countP_congr fun row hrow => ?_
  simp only [decide_eq_true_eq]
  exact ⟨And.left, fun ho => ⟨ho, mem_landedTriggers.mpr ⟨row, hrow, ho, rfl⟩⟩⟩

/-- What a sender did not win of the landed triggers was won by the others. -/
theorem LandsOnce.wins_add (h : LandsOnce rows) (s : ℕ) :
    winsOf s rows + (rows.countP fun row => row.finalOutcome = .landed ∧ row.senderId ≠ s) =
      (landedTriggers rows).card := by
  have hsplit := List.countP_eq_countP_filter_add rows
    (fun row => decide (row.finalOutcome = .landed)) (fun row => decide (row.senderId = s))
  rw [List.countP_filter, List.countP_filter, h.countP_eq] at hsplit
  simpa [winsOf] using hsplit.symm

/-- The rows of the landed triggers are one for each of them and each sender. -/
theorem Races.countP_landed (h : Races senders is)
    (hkeys : (rows.map TriggerRecord.key).Perm ((registrations is).map RegisterEvent.key)) :
    (rows.countP fun row => row.triggerId ∈ landedTriggers rows) =
      (landedTriggers rows).card * senders.card := by
  have hreg : ∀ row ∈ rows, ∃ reg ∈ registrations is, reg.key = row.key := fun row hrow =>
    List.mem_map.mp (hkeys.subset (List.mem_map_of_mem hrow))
  have hnodup : ((rows.filter fun row => row.triggerId ∈ landedTriggers rows).map
      TriggerRecord.key).Nodup :=
    (hkeys.nodup_iff.mpr h.keys).sublist (List.filter_sublist.map _)
  rw [List.countP_eq_length_filter, ← List.length_map (f := TriggerRecord.key),
    ← List.toFinset_card_of_nodup hnodup, ← Finset.card_product]
  congr 1
  ext ⟨t, s⟩
  rw [List.mem_toFinset, Finset.mem_product, List.mem_map]
  constructor
  · rintro ⟨row, hrow, hk⟩
    obtain ⟨hmem, ht⟩ := List.mem_filter.mp hrow
    obtain ⟨reg, hr, hrk⟩ := hreg row hmem
    have hs : reg.senderId = s := congrArg Prod.snd (hrk.trans hk)
    have hrt : row.triggerId = t := congrArg Prod.fst hk
    exact ⟨hrt ▸ of_decide_eq_true ht, hs ▸ h.own reg hr⟩
  · rintro ⟨ht, hs⟩
    -- the landed attempt is registered, so its trigger is for every sender
    obtain ⟨row, hrow, -, hrt⟩ := mem_landedTriggers.mp ht
    obtain ⟨reg, hr, hrk⟩ := hreg row hrow
    obtain ⟨reg', hr', hrk'⟩ := h.each reg hr s hs
    have htt : reg.triggerId = t := (congrArg Prod.fst hrk).trans hrt
    obtain ⟨row', hrow', hk'⟩ := List.mem_map.mp (hkeys.symm.subset (List.mem_map_of_mem hr'))
    have hkey : row'.key = (t, s) := by rw [hk', hrk', htt]
    refine ⟨row', List.mem_filter.mpr ⟨hrow', decide_eq_true ?_⟩, hkey⟩
    have hrt' : row'.triggerId = t := congrArg Prod.fst hkey
    rw [hrt']
    exact ht

/-- The triggers of a sender that another one won are the landed attempts of the others. -/
theorem Races.countP_lostTo (h : Races senders is)
    (hkeys : (rows.map TriggerRecord.key).Perm ((registrations is).map RegisterEvent.key))
    (hone : LandsOnce rows) {s : ℕ} (hs : s ∈ senders) :
    ((registrations is).countP fun reg => reg.senderId = s ∧ LostTo rows reg) =
      rows.countP fun row => row.finalOutcome = .landed ∧ row.senderId ≠ s := by
  have hregs : (((registrations is).filter fun reg => reg.senderId = s ∧ LostTo rows reg).map
      RegisterEvent.triggerId).Nodup := by
    refine List.Nodup.map_on (fun r hr r' hr' ht => ?_) (h.keys.of_map.filter _)
    obtain ⟨hr, hrs⟩ := List.mem_filter.mp hr
    obtain ⟨hr', hrs'⟩ := List.mem_filter.mp hr'
    have hss : r.senderId = r'.senderId :=
      (of_decide_eq_true hrs).1.trans (of_decide_eq_true hrs').1.symm
    exact List.inj_on_of_nodup_map h.keys hr hr' (Prod.ext ht hss)
  have hrows : ((rows.filter fun row => row.finalOutcome = .landed ∧ row.senderId ≠ s).map
      TriggerRecord.triggerId).Nodup := by
    refine hone.sublist (List.Sublist.map _ ?_)
    refine List.monotone_filter_right rows fun row hrow => ?_
    exact decide_eq_true (of_decide_eq_true hrow).1
  have hperm := (List.perm_ext_iff_of_nodup hregs hrows).mpr fun t => ?_
  · have hlen := hperm.length_eq
    simpa [List.countP_eq_length_filter] using hlen
  · rw [List.mem_map, List.mem_map]
    constructor
    · rintro ⟨reg, hreg, rfl⟩
      obtain ⟨-, hmem⟩ := List.mem_filter.mp hreg
      obtain ⟨hsame, row, hrow, ho, ht, hne⟩ := of_decide_eq_true hmem
      exact ⟨row, List.mem_filter.mpr ⟨hrow, decide_eq_true ⟨ho, hsame ▸ hne⟩⟩, ht⟩
    · rintro ⟨row, hrow, rfl⟩
      obtain ⟨hrow, hmem⟩ := List.mem_filter.mp hrow
      obtain ⟨ho, hne⟩ := of_decide_eq_true hmem
      obtain ⟨reg, hr, hrk⟩ := List.mem_map.mp (hkeys.subset (List.mem_map_of_mem hrow))
      obtain ⟨reg', hr', hrk'⟩ := h.each reg hr s hs
      have ht : reg'.triggerId = row.triggerId :=
        (congrArg Prod.fst hrk').trans (congrArg Prod.fst hrk)
      have hs' : reg'.senderId = s := congrArg Prod.snd hrk'
      refine ⟨reg', List.mem_filter.mpr ⟨hr', decide_eq_true ⟨hs', row, hrow, ho, ht.symm, ?_⟩⟩, ht⟩
      rw [hs']
      exact hne

end Counting

/-! ## The report -/

/-- A line of the report stands for a sender of the run, with what the rows say it won. -/
theorem line_of_runReport (cfg : RecorderConfig) (names : List (ℕ × String)) {is : List Input}
    {line : SenderLine} (h : line ∈ (runReport cfg names is).perSender) :
    (∃ reg ∈ registrations is, reg.senderId = line.senderId) ∧
      line.losesToOther = (landedTriggers (records (runLoop cfg is).2)).card -
        winsOf line.senderId (records (runLoop cfg is).2) := by
  have hlog := logged_runLoop cfg is
  obtain ⟨ps, hps, rfl⟩ := List.mem_map.mp h
  obtain ⟨s, hs⟩ := mem_perSender_iff.mp hps
  have hid : ps.senderId = s := hlog.ids s ps hs
  have hstats : (runLoop cfg is).1.agg.stats s = ps := by
    unfold AggregateState.stats
    rw [hs]
    rfl
  have hmem : s ∈ (runLoop cfg is).1.agg.perSender :=
    AList.lookup_isSome.mp (Option.isSome_iff_exists.mpr ⟨ps, hs⟩)
  have hwins := hlog.wins s
  rw [hstats] at hwins
  unfold senderLine AggregateState.intoSummary
  dsimp only
  rw [hid, hlog.landed, hwins]
  exact ⟨(hlog.senders s).mp hmem, rfl⟩

/-- Every sender of the run has a line. -/
theorem exists_line (cfg : RecorderConfig) (names : List (ℕ × String)) {is : List Input}
    {reg : RegisterEvent} (h : reg ∈ registrations is) :
    ∃ line ∈ (runReport cfg names is).perSender, line.senderId = reg.senderId := by
  have hlog := logged_runLoop cfg is
  obtain ⟨ps, hps⟩ := Option.isSome_iff_exists.mp
    (AList.lookup_isSome.mpr ((hlog.senders reg.senderId).mpr ⟨reg, h, rfl⟩))
  exact ⟨_, List.mem_map_of_mem (mem_perSender_iff.mpr ⟨_, hps⟩), hlog.ids _ ps hps⟩

/-- The breakdown is right iff the landed triggers have two senders each on the whole, not
counting the siblings whose send failed. What a sender lost to the others is always right. -/
theorem faithful_iff (cfg : RecorderConfig) (names : List (ℕ × String)) {is : List Input}
    {senders : Finset ℕ} (h : Races senders is) (hone : LandsOnce (records (runLoop cfg is).2)) :
    Faithful is (records (runLoop cfg is).2) (runReport cfg names is) ↔
      siblings .sendError (records (runLoop cfg is).2) +
          2 * (landedTriggers (records (runLoop cfg is).2)).card =
        senders.card * (landedTriggers (records (runLoop cfg is).2)).card := by
  have hlog := logged_runLoop cfg is
  have hkeys := keys_runLoop cfg h.keys
  have hlosing : (runReport cfg names is).losingSiblings =
      (landedTriggers (records (runLoop cfg is).2)).card := by
    rw [← hlog.landed]
    rfl
  have hlost : (runReport cfg names is).lostNoLand =
      pendings (records (runLoop cfg is).2) - (runReport cfg names is).losingSiblings := by
    rw [← hlog.pending]
    rfl
  have hpend := pendings_eq (records (runLoop cfg is).2)
  have hland := hone.siblings_landed
  have hall : siblings .landed (records (runLoop cfg is).2) +
      siblings .sendError (records (runLoop cfg is).2) +
      siblings .unknownPending (records (runLoop cfg is).2) =
        senders.card * (landedTriggers (records (runLoop cfg is).2)).card := by
    rw [Nat.mul_comm, ← h.countP_landed hkeys]
    exact (countP_landed _ _).symm
  constructor
  · intro hf
    have hsame := hf.losing
    omega
  · intro hcount
    have hsame : (runReport cfg names is).losingSiblings =
        siblings .unknownPending (records (runLoop cfg is).2) := by omega
    refine ⟨hsame, by omega, fun line hline => ?_, fun reg hreg => exists_line cfg names hreg⟩
    obtain ⟨⟨reg, hreg, hs⟩, hloses⟩ := line_of_runReport cfg names hline
    have hwins := hone.wins_add line.senderId
    rw [hloses, h.countP_lostTo hkeys hone (hs ▸ h.own reg hreg)]
    omega

/-! One trigger raced by senders `1` to `n`, of which the first lands. -/

def sampleRace (n : ℕ) : List Input :=
  ((List.range n).map fun k => .register
    { sampleRegister with senderId := k + 1, signature := 11 + k }) ++
    [.matched sampleMatch ⟨∅, 64⟩ 9_000]

instance (senders : Finset ℕ) (is : List Input) : Decidable (Races senders is) :=
  decidable_of_iff (((registrations is).map RegisterEvent.key).Nodup ∧
    (∀ reg ∈ registrations is, reg.senderId ∈ senders) ∧
    ∀ reg ∈ registrations is, ∀ s ∈ senders,
      ∃ reg' ∈ registrations is, reg'.key = (reg.triggerId, s))
    ⟨fun h => ⟨h.1, h.2.1, h.2.2⟩, fun h => ⟨h.1, h.2, h.3⟩⟩

instance (rows : List TriggerRecord) : Decidable (LandsOnce rows) :=
  inferInstanceAs (Decidable (List.Nodup _))

theorem faithful_iff_pair :
    Races {1, 2} (sampleRace 2) ∧ LandsOnce (records (runLoop sampleConfig (sampleRace 2)).2) ∧
      Faithful (sampleRace 2) (records (runLoop sampleConfig (sampleRace 2)).2)
        (runReport sampleConfig [(1, "helius"), (2, "jito")] (sampleRace 2)) :=
  have h : Races {1, 2} (sampleRace 2) := by decide +kernel
  have hone : LandsOnce (records (runLoop sampleConfig (sampleRace 2)).2) := by decide +kernel
  ⟨h, hone, (faithful_iff sampleConfig [(1, "helius"), (2, "jito")] h hone).mpr (by decide +kernel)⟩

/-- With a third sender the winner has two losing siblings. One is reported, and the
other is put down as lost. -/
theorem third_sibling_lost : ¬∀ (cfg : RecorderConfig) (names : List (ℕ × String))
    (is : List Input) (senders : Finset ℕ), senders.Nonempty → Races senders is →
      LandsOnce (records (runLoop cfg is).2) →
      Faithful is (records (runLoop cfg is).2) (runReport cfg names is) := by
  intro h
  have hlosing := (h sampleConfig [] (sampleRace 3) {1, 2, 3} (by decide) (by decide +kernel)
    (by decide +kernel)).losing
  revert hlosing
  decide +kernel

end SolanaBench.TickTrigger.FinalReport
