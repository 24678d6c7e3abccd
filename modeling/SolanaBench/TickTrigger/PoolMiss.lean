import SolanaBench.Lib.AListEach
import SolanaBench.Lib.AListRetain
import SolanaBench.TickTrigger.TipAccounts

/-! The variants of a trigger: those that the preparer pools, and those that the dispatcher
builds itself when the pool has none. -/
namespace SolanaBench.TickTrigger

open TxBuilder TriggerEngine

namespace Preparer

/-- The preparer without durable nonces. Each enabled sender has a tip rotator of its own, here
at any position. -/
def freshVariants (cfg : PreparerConfig) (handles : ℕ → Option ℕ) (cursors : ℕ → ℕ)
    (entry : ScheduleEntry) (bh : Hash) (preparedAt : Instant) : List PreSignedTx :=
  cfg.shuffle (permSeed cfg entry)
    ((cfg.senders.filter SenderConfig.enabled).zipIdx.filterMap fun slot =>
      let rotator : TipAccountRotator := ⟨tipAccountsFor slot.1.kind, cursors slot.2⟩
      signVariant cfg ⟨fun _ => rotator.next.1, handles⟩ entry bh none preparedAt slot.1)

end Preparer

namespace Dispatcher

/-- The tip rotators by sender id. -/
abbrev Rotators := AList fun _ : ℕ => TipAccountRotator

/-- `collect`: of senders with one id the last one has its rotator in the map. -/
def fallbackRotators (senders : List SenderConfig) (cursors : ℕ → ℕ) : Rotators :=
  AList.insertAll ∅ (senders.map fun sc => (sc.id, ⟨tipAccountsFor sc.kind, cursors sc.id⟩))

def nextTip (rotators : Rotators) (id : ℕ) : Option Pubkey × Rotators :=
  match rotators.lookup id with
  | none => (none, rotators)
  | some r => (r.next.1, rotators.insert id r.next.2)

def fallbackVariant (cfg : PreparerConfig) (trig : TriggerEvent) (bh : Hash) (now : Instant)
    (tip : Option Pubkey) (sc : SenderConfig) : PreSignedTx :=
  let tx := build
    { payer := cfg.keypair
      blockhash := bh
      senderId := sc.id
      triggerId := trig.triggerId
      tipAccount := tip
      tipLamports := sc.tipLamports
      nonce := none
      txCfg := cfg.txCfg
      fundTipper := none }
  ⟨sc.id, tx, cfg.sign tx, bh, now, none, none⟩

/-- One variant per enabled sender, in the order of the configuration. The clock is read for
each of them. -/
def fallback (cfg : PreparerConfig) (trig : TriggerEvent) (bh : Hash) :
    List SenderConfig → (ℕ → Instant) → Rotators → List PreSignedTx × Rotators
  | [], _, rotators => ([], rotators)
  | sc :: senders, clock, rotators =>
    let tip := if sc.tipLamports > 0 then nextTip rotators sc.id else (none, rotators)
    let rest := fallback cfg trig bh senders (fun n => clock (n + 1)) tip.2
    (fallbackVariant cfg trig bh (clock 0) tip.1 sc :: rest.1, rest.2)

/-- What the dispatcher sends for a trigger: the pooled variants, or its own ones unless nonces
are used or no blockhash has come yet. -/
def variantsOf (cfg : PreparerConfig) (nonceMode : Bool) (cached : Option Hash) (trig : TriggerEvent)
    (clock : ℕ → Instant) (pool : TxPool) (rotators : Rotators) :
    Option (List PreSignedTx) × TxPool × Rotators :=
  match pool.take ⟨trig.slot, trig.tick⟩ with
  | (pool, some txs) => (some txs, pool, rotators)
  | (pool, none) =>
    match nonceMode, cached with
    | false, some bh =>
      let built := fallback cfg trig bh (cfg.senders.filter SenderConfig.enabled) clock rotators
      (some built.1, pool, built.2)
    | _, _ => (none, pool, rotators)

end Dispatcher

/-! ## What two variants have in common -/

namespace TxBuilder

/-- The instruction without the account that a transfer goes to. -/
def Instruction.unaddressed : Instruction → Instruction
  | .transfer source _ lamports => .transfer source source lamports
  | i => i

def Instruction.isTransfer : Instruction → Bool
  | .transfer _ _ _ => true
  | _ => false

def Transaction.unaddressed (tx : Transaction) : Transaction :=
  { tx with instructions := tx.instructions.map Instruction.unaddressed }

end TxBuilder

/-- A variant up to the time of its making and the tip account that was on. -/
structure VariantView where
  senderId : ℕ
  tx : Transaction
  blockhash : Hash
  nonceId : Option Nonce.NonceId
  bundled : Bool
  deriving DecidableEq, Repr

def PreSignedTx.view (v : PreSignedTx) : VariantView :=
  ⟨v.senderId, v.tx.unaddressed, v.blockhash, v.nonceId, v.bundleMetadata.isSome⟩

/-- Next to the transfer of the payer to itself there is a tip. -/
def VariantView.tipped (v : VariantView) : Bool :=
  decide (2 ≤ v.tx.instructions.countP Instruction.isTransfer)

/-- The view of a variant that is not a bundle. -/
def plainView (cfg : PreparerConfig) (triggerId : TriggerId) (bh : Hash) (sc : SenderConfig)
    (tipped : Bool) : VariantView where
  senderId := sc.id
  tx := build
    { payer := cfg.keypair
      blockhash := bh
      senderId := sc.id
      triggerId := triggerId
      tipAccount := if tipped then some cfg.keypair else none
      tipLamports := sc.tipLamports
      nonce := none
      txCfg := cfg.txCfg
      fundTipper := none }
  blockhash := bh
  nonceId := none
  bundled := false

section

variable {cfg : PreparerConfig} {triggerId : TriggerId} {bh : Hash} {sc : SenderConfig}

theorem unaddressed_build (tip : Option Pubkey) (tipLamports : ℕ) :
    (build ⟨cfg.keypair, bh, sc.id, triggerId, tip, tipLamports, none, cfg.txCfg,
      none⟩).unaddressed =
        build ⟨cfg.keypair, bh, sc.id, triggerId, if tip.isSome then some cfg.keypair else none,
          tipLamports, none, cfg.txCfg, none⟩ := by
  have hcu : (if cfg.txCfg.priorityFeeMicrolamports > 0 then
      [Instruction.setComputeUnitPrice cfg.txCfg.priorityFeeMicrolamports] else []).map
        Instruction.unaddressed =
      if cfg.txCfg.priorityFeeMicrolamports > 0 then
        [Instruction.setComputeUnitPrice cfg.txCfg.priorityFeeMicrolamports] else [] := by
    split <;> rfl
  unfold Transaction.unaddressed build
  cases tip with
  | none => simp [hcu, Instruction.unaddressed]
  | some tip =>
    by_cases hpos : tipLamports > 0
    · simp [hcu, Instruction.unaddressed, hpos]
    · simp [hcu, Instruction.unaddressed, hpos]

theorem view_fallbackVariant (trig : TriggerEvent) (now : Instant) (tip : Option Pubkey) :
    (Dispatcher.fallbackVariant cfg trig bh now tip sc).view =
      plainView cfg trig.triggerId bh sc tip.isSome := by
  unfold Dispatcher.fallbackVariant PreSignedTx.view plainView
  dsimp only
  rw [unaddressed_build]
  rfl

theorem tipped_plainView (tipped : Bool) :
    (plainView cfg triggerId bh sc tipped).tipped = (tipped && decide (0 < sc.tipLamports)) := by
  have hcu : (if cfg.txCfg.priorityFeeMicrolamports > 0 then
      [Instruction.setComputeUnitPrice cfg.txCfg.priorityFeeMicrolamports] else []).countP
        Instruction.isTransfer = 0 := by
    split <;> rfl
  unfold VariantView.tipped plainView build
  cases tipped with
  | false => simp [hcu, Instruction.isTransfer]
  | true =>
    by_cases hpos : sc.tipLamports > 0
    · simp [hcu, Instruction.isTransfer, hpos, List.countP_cons]
    · simp [hcu, Instruction.isTransfer, hpos]

/-! ## The two loops -/

/-- A sender that is not a Jito one always gets a variant. -/
theorem view_signVariant {tips : Tips} {entry : ScheduleEntry} {preparedAt : Instant}
    (hkind : sc.kind ≠ .jito) :
    (Preparer.signVariant cfg tips entry bh none preparedAt sc).map PreSignedTx.view =
      some (plainView cfg (TriggerId.fromSlotTick entry.slot entry.tick) bh sc
        (decide (0 < sc.tipLamports) && (tips.next sc.id).isSome)) := by
  unfold Preparer.signVariant
  simp only [hkind, if_false, or_false, Option.map_some, PreSignedTx.view, unaddressed_build,
    Option.map_none]
  unfold plainView
  by_cases hpos : 0 < sc.tipLamports
  · simp [hpos]
  · simp [hpos]

theorem bundled_signVariant {tips : Tips} {entry : ScheduleEntry} {preparedAt : Instant}
    (hkind : sc.kind = .jito) (hhandle : (tips.handle sc.id).isSome)
    (hnext : (tips.next sc.id).isSome) :
    ∃ v, Preparer.signVariant cfg tips entry bh none preparedAt sc = some v ∧
      v.view.bundled = true := by
  obtain ⟨lamports, hlamports⟩ := Option.isSome_iff_exists.mp hhandle
  obtain ⟨tip, htip⟩ := Option.isSome_iff_exists.mp hnext
  unfold Preparer.signVariant
  simp [hkind, hlamports, htip, PreSignedTx.view]

namespace Dispatcher

/-- The sender with this id has tip accounts to choose from. -/
def hasTip (rotators : Rotators) (id : ℕ) : Bool :=
  (rotators.lookup id).any fun r => decide (r.accounts ≠ [])

theorem nextTip_isSome (rotators : Rotators) (id : ℕ) :
    (nextTip rotators id).1.isSome = hasTip rotators id := by
  unfold nextTip hasTip
  cases rotators.lookup id with
  | none => rfl
  | some r => exact r.next_isSome

theorem hasTip_nextTip (rotators : Rotators) (id : ℕ) :
    hasTip (nextTip rotators id).2 = hasTip rotators := by
  funext id'
  unfold nextTip hasTip
  cases hr : rotators.lookup id with
  | none => rfl
  | some r =>
    dsimp only
    rw [AList.lookup_insert_eq]
    split
    · rename_i hid
      rw [hid, hr]
      simp
    · rfl

theorem view_fallback (trig : TriggerEvent) (senders : List SenderConfig) (clock : ℕ → Instant)
    (rotators : Rotators) :
    (fallback cfg trig bh senders clock rotators).1.map PreSignedTx.view =
      senders.map fun sc => plainView cfg trig.triggerId bh sc
        (decide (0 < sc.tipLamports) && hasTip rotators sc.id) := by
  induction senders generalizing clock rotators with
  | nil => rfl
  | cons sc senders ih =>
    unfold fallback
    dsimp only
    rw [List.map_cons, List.map_cons, view_fallbackVariant, ih]
    by_cases hpos : sc.tipLamports > 0
    · simp [hpos, nextTip_isSome, hasTip_nextTip]
    · simp [hpos]

/-- The sender whose rotator the map has for the id. -/
def lastOf (senders : List SenderConfig) (id : ℕ) : Option SenderConfig :=
  (senders.filter fun sc => sc.id = id).getLast?

theorem hasTip_fallbackRotators (senders : List SenderConfig) (cursors : ℕ → ℕ) (id : ℕ) :
    hasTip (fallbackRotators senders cursors) id =
      (lastOf senders id).any fun last => decide (last.kind ≠ .triton) := by
  have hview : (fun sc : SenderConfig => if sc.id = id then
      some (⟨tipAccountsFor sc.kind, cursors sc.id⟩ : TipAccountRotator) else none) =
      fun sc => (Option.guard (fun sc => decide (sc.id = id)) sc).map
        fun sc => ⟨tipAccountsFor sc.kind, cursors sc.id⟩ := by
    funext sc
    by_cases hid : sc.id = id
    · simp [Option.guard, hid]
    · simp [Option.guard, hid]
  unfold hasTip fallbackRotators lastOf
  rw [AList.lookup_insertAll, List.filterMap_map]
  change (((senders.filterMap fun sc : SenderConfig => if sc.id = id then
      some (⟨tipAccountsFor sc.kind, cursors sc.id⟩ : TipAccountRotator) else none).getLast?).or
        none).any _ = _
  rw [hview, ← List.map_filterMap, List.filterMap_eq_filter, Option.or_none, List.getLast?_map]
  cases (senders.filter fun sc => decide (sc.id = id)).getLast? with
  | none => rfl
  | some last => simp [tipAccountsFor_eq_nil_iff]

end Dispatcher

end

/-! ## Agreement -/

/-- What holds of no more elements through `g` than through `f` holds of the same ones. -/
theorem of_countP_le {α : Type*} {l : List α} {p q : α → Bool} (himp : ∀ x ∈ l, p x → q x)
    (hle : l.countP q ≤ l.countP p) : ∀ x ∈ l, q x → p x := by
  induction l with
  | nil => exact nofun
  | cons y l ih =>
    obtain ⟨hy, hl⟩ := List.forall_mem_cons.mp himp
    have hmono := List.countP_mono_left hl
    rw [List.countP_cons, List.countP_cons] at hle
    refine List.forall_mem_cons.mpr ⟨fun hq => ?_, ih hl ?_⟩
    · by_contra hp
      simp only [hq, hp, if_true, if_false] at hle
      omega
    · cases hp : p y with
      | true =>
        simp only [hp, hy hp, if_true] at hle
        omega
      | false =>
        simp only [hp, Bool.false_eq_true, if_false] at hle
        split at hle <;> omega

theorem map_fst_zipIdx {α β : Type*} (f : α → β) (l : List α) :
    (l.zipIdx.map fun x => f x.1) = l.map f := by
  change l.zipIdx.map (f ∘ Prod.fst) = l.map f
  rw [← List.map_map, List.zipIdx_map_fst]

namespace Dispatcher

/-- A sender that tips has tip accounts just if the rotator under its id has some. -/
def FindsTip (senders : List SenderConfig) (sc : SenderConfig) : Prop :=
  0 < sc.tipLamports → ∀ last ∈ lastOf senders sc.id, (last.kind = .triton ↔ sc.kind = .triton)

end Dispatcher

open Dispatcher

section

variable {cfg : PreparerConfig} {triggerId : TriggerId} {bh : Hash} {senders : List SenderConfig}
  {sc last : SenderConfig}

/-- What the preparer pools, without bundles and up to order. -/
theorem view_freshVariants {handles : ℕ → Option ℕ} {cursors : ℕ → ℕ} {entry : ScheduleEntry}
    {preparedAt : Instant}
    (hkind : ∀ sc ∈ cfg.senders.filter SenderConfig.enabled, sc.kind ≠ .jito) :
    ((Preparer.freshVariants cfg handles cursors entry bh preparedAt).map PreSignedTx.view).Perm
      ((cfg.senders.filter SenderConfig.enabled).map fun sc =>
        plainView cfg (TriggerId.fromSlotTick entry.slot entry.tick) bh sc
          (decide (0 < sc.tipLamports) && decide (sc.kind ≠ .triton))) := by
  refine ((cfg.shuffle_perm _ _).map _).trans (List.Perm.of_eq ?_)
  rw [List.map_filterMap]
  have hslot : ∀ slot ∈ (cfg.senders.filter SenderConfig.enabled).zipIdx,
      (Preparer.signVariant cfg ⟨fun _ => (TipAccountRotator.mk (tipAccountsFor slot.1.kind)
        (cursors slot.2)).next.1, handles⟩ entry bh none preparedAt slot.1).map PreSignedTx.view =
      some (plainView cfg (TriggerId.fromSlotTick entry.slot entry.tick) bh slot.1
        (decide (0 < slot.1.tipLamports) && decide (slot.1.kind ≠ .triton))) := by
    intro slot hmem
    rw [view_signVariant (hkind _ (List.fst_mem_of_mem_zipIdx hmem))]
    simp [TipAccountRotator.next_isSome, tipAccountsFor_eq_nil_iff]
  rw [List.filterMap_congr hslot, List.filterMap_eq_map']
  exact map_fst_zipIdx (fun sc => plainView cfg (TriggerId.fromSlotTick entry.slot entry.tick) bh sc
    (decide (0 < sc.tipLamports) && decide (sc.kind ≠ .triton))) _

/-- Each Jito sender has its bundle in the pool. -/
theorem exists_bundled {handles : ℕ → Option ℕ} {cursors : ℕ → ℕ} {entry : ScheduleEntry}
    {preparedAt : Instant} (hsc : sc ∈ cfg.senders.filter SenderConfig.enabled)
    (hkind : sc.kind = .jito) (hhandle : (handles sc.id).isSome) :
    ∃ v ∈ Preparer.freshVariants cfg handles cursors entry bh preparedAt,
      v.view.bundled = true := by
  rw [← List.zipIdx_map_fst 0 (cfg.senders.filter SenderConfig.enabled)] at hsc
  obtain ⟨slot, hslot, rfl⟩ := List.mem_map.mp hsc
  obtain ⟨v, hv, hbundled⟩ := @bundled_signVariant cfg bh slot.1
    ⟨fun _ => (TipAccountRotator.mk (tipAccountsFor slot.1.kind) (cursors slot.2)).next.1, handles⟩
    entry preparedAt hkind hhandle
    (by simp [TipAccountRotator.next_isSome, tipAccountsFor_eq_nil_iff, hkind])
  exact ⟨v, (cfg.shuffle_perm _ _).mem_iff.mpr (List.mem_filterMap.mpr ⟨slot, hslot, hv⟩), hbundled⟩

/-- Where no two senders share an id, each finds its own rotator. -/
theorem findsTip_of_nodup (hnodup : (senders.map SenderConfig.id).Nodup) (hsc : sc ∈ senders) :
    FindsTip senders sc := by
  intro _ last hlast
  have hmem := List.mem_filter.mp (List.mem_of_getLast? hlast)
  have hid : last.id = sc.id := by simpa using hmem.2
  rw [List.inj_on_of_nodup_map hnodup hmem.1 hsc hid]

theorem exists_lastOf (h : sc ∈ senders) : ∃ last, lastOf senders sc.id = some last := by
  refine Option.isSome_iff_exists.mp (List.getLast?_isSome.mpr (List.ne_nil_of_mem (List.mem_filter.mpr ⟨h, by simp⟩)))

/-- The two lists of variants, where no sender is a Jito one. -/
theorem plainViews_perm_iff {cursors : ℕ → ℕ} :
    (senders.map fun sc => plainView cfg triggerId bh sc (decide (0 < sc.tipLamports) &&
        hasTip (fallbackRotators senders cursors) sc.id)).Perm
      (senders.map fun sc => plainView cfg triggerId bh sc (decide (0 < sc.tipLamports) &&
        decide (sc.kind ≠ .triton))) ↔ ∀ sc ∈ senders, FindsTip senders sc := by
  simp only [hasTip_fallbackRotators]
  constructor
  · intro hperm sc hsc hpos last hlast
    -- the tips under the id of the sender are counted on both sides
    have hcount := hperm.countP_eq fun v => decide (v.senderId = sc.id) && v.tipped
    rw [List.countP_map, List.countP_map] at hcount
    simp only [Function.comp_def, tipped_plainView] at hcount
    by_cases hkind : last.kind = .triton
    · refine iff_of_true hkind ?_
      by_contra hne
      have htip := of_countP_le (fun x _ hx => ?_) hcount.ge sc hsc
      · simp [plainView, Option.mem_def.mp hlast, hkind, hpos, hne] at htip
      · simp only [Bool.and_eq_true, decide_eq_true_eq] at hx
        obtain ⟨hx, ⟨-, htip⟩, -⟩ := hx
        have hx' : x.id = sc.id := hx
        simp [hx', Option.mem_def.mp hlast, hkind] at htip
    · refine iff_of_false hkind ?_
      have htip := of_countP_le (fun x _ hx => ?_) hcount.le sc hsc
      · simpa [plainView, Option.mem_def.mp hlast, hkind, hpos] using htip
      · simp only [Bool.and_eq_true, decide_eq_true_eq] at hx ⊢
        obtain ⟨hx, ⟨hpos', -⟩, -⟩ := hx
        have hx' : x.id = sc.id := hx
        simp [hx', Option.mem_def.mp hlast, hkind, hpos', plainView]
  · intro hfinds
    refine List.Perm.of_eq (List.map_congr_left fun sc hsc => ?_)
    by_cases hpos : 0 < sc.tipLamports
    · obtain ⟨last, hlast⟩ := exists_lastOf hsc
      have hkind := hfinds sc hsc hpos last hlast
      simp [hlast, hkind]
    · simp [hpos]

theorem variantsOf_miss {cached : Hash} {trig : TriggerEvent} {clock : ℕ → Instant} {pool : TxPool}
    {rotators : Rotators} (hmiss : pool.inner.lookup ⟨trig.slot, trig.tick⟩ = none) :
    (variantsOf cfg false (some cached) trig clock pool rotators).1 =
      some (fallback cfg trig cached (cfg.senders.filter SenderConfig.enabled) clock rotators).1 := by
  simp [variantsOf, TxPool.take, hmiss]

end

/-- On a pool miss the dispatcher builds the variants that the preparer would have pooled,
exactly if no sender is a Jito one and every sender finds its tip accounts under its id. -/
theorem fallback_agrees_iff (cfg : PreparerConfig) (handles : ℕ → Option ℕ)
    (cursors cursors' : ℕ → ℕ) (e : PohSupervisor.OrderedEntry) (now : Instant) (bh : Hash)
    (clock : ℕ → Instant) (preparedAt : Instant) (pool : TxPool)
    (hhandles : ∀ sc ∈ cfg.senders, sc.enabled → sc.kind = .jito → (handles sc.id).isSome)
    (hmiss : pool.inner.lookup ⟨e.slot, e.tickIdxInSlot⟩ = none) :
    ∃ txs, (variantsOf cfg false (some bh) (triggerEvent e now) clock pool
        (fallbackRotators (cfg.senders.filter SenderConfig.enabled) cursors')).1 = some txs ∧
      ((txs.map PreSignedTx.view).Perm
        ((Preparer.freshVariants cfg handles cursors ⟨e.slot, e.tickIdxInSlot⟩ bh
          preparedAt).map PreSignedTx.view) ↔
        ∀ sc ∈ cfg.senders.filter SenderConfig.enabled, sc.kind ≠ .jito ∧
          FindsTip (cfg.senders.filter SenderConfig.enabled) sc) := by
  refine ⟨_, variantsOf_miss hmiss, ?_⟩
  rw [view_fallback]
  by_cases hkind : ∀ sc ∈ cfg.senders.filter SenderConfig.enabled, sc.kind ≠ .jito
  · refine ((view_freshVariants hkind).congr_right _).trans (plainViews_perm_iff.trans ?_)
    exact ⟨fun h sc hsc => ⟨hkind sc hsc, h sc hsc⟩, fun h sc hsc => (h sc hsc).2⟩
  · refine iff_of_false (fun hperm => ?_) fun h => hkind fun sc hsc => (h sc hsc).1
    push Not at hkind
    obtain ⟨sc, hsc, hjito⟩ := hkind
    -- the pooled variant of a Jito sender is a bundle, and none of the dispatcher's is
    obtain ⟨hmem, henabled⟩ := List.mem_filter.mp hsc
    obtain ⟨v, hv, hbundled⟩ := exists_bundled hsc hjito (hhandles sc hmem henabled hjito)
    obtain ⟨sc', -, hview⟩ := List.mem_map.mp (hperm.mem_iff.mpr (List.mem_map_of_mem hv))
    rw [← hview] at hbundled
    cases hbundled

def sendersConfig (senders : List SenderConfig) : PreparerConfig where
  keypair := 1
  senders := senders
  sign tx := tx.instructions.length
  shuffle _ txs := txs
  shuffle_perm _ txs := List.Perm.refl txs

/-- Tick 3 of slot 7. -/
def missedEntry : PohSupervisor.OrderedEntry :=
  ⟨7, 3, 3, 187500, ⟨.shredStream, 100, 7, 3, 62500, 11, 0, [], none, none⟩, false, 0, false⟩

/-- A Helius sender that tips and a Triton sender. -/
def plainSenders : List SenderConfig := [⟨0, .helius, 1000, true⟩, ⟨1, .triton, 0, true⟩]

theorem fallback_agrees_iff_plain : ∃ txs,
    (variantsOf (sendersConfig plainSenders) false (some 9) (triggerEvent missedEntry 105) id {}
        (fallbackRotators plainSenders fun _ => 4)).1 = some txs ∧
      (txs.map PreSignedTx.view).Perm ((Preparer.freshVariants (sendersConfig plainSenders)
        (fun _ => none) (fun _ => 2) ⟨7, 3⟩ 9 90).map PreSignedTx.view) := by
  obtain ⟨txs, htxs, hiff⟩ := fallback_agrees_iff (sendersConfig plainSenders) (fun _ => none)
    (fun _ => 2) (fun _ => 4) missedEntry 105 9 id 90 {} (by decide) rfl
  refine ⟨txs, htxs, hiff.mpr fun sc hsc => ⟨?_, findsTip_of_nodup (by decide) hsc⟩⟩
  exact (show ∀ sc ∈ plainSenders, sc.kind ≠ .jito by decide) sc hsc

/-- A Jito sender, whose tip comes from its handle. -/
def jitoSender : List SenderConfig := [⟨2, .jito, 0, true⟩]

/-- The pooled variant is a bundle with a tip of 15000, the dispatcher's one has no tip. -/
theorem fallback_drops_bundle : ¬∀ (cfg : PreparerConfig) (handles : ℕ → Option ℕ)
    (cursors cursors' : ℕ → ℕ) (e : PohSupervisor.OrderedEntry) (now : Instant) (bh : Hash)
    (clock : ℕ → Instant) (preparedAt : Instant) (txs : List PreSignedTx),
    (∀ sc ∈ cfg.senders, sc.enabled → sc.kind = .jito → (handles sc.id).isSome) →
      (variantsOf cfg false (some bh) (triggerEvent e now) clock {}
        (fallbackRotators (cfg.senders.filter SenderConfig.enabled) cursors')).1 = some txs →
        (txs.map PreSignedTx.view).Perm ((Preparer.freshVariants cfg handles cursors
          ⟨e.slot, e.tickIdxInSlot⟩ bh preparedAt).map PreSignedTx.view) := by
  intro h
  have hperm := h (sendersConfig jitoSender) (fun _ => some 15000) (fun _ => 0) (fun _ => 0)
    missedEntry 105 9 id 90 _ (by decide) (variantsOf_miss rfl)
  exact absurd hperm (by decide)

end SolanaBench.TickTrigger
