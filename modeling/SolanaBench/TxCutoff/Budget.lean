import Mathlib.Algebra.BigOperators.Group.List.Basic
import Mathlib.Algebra.Order.BigOperators.Group.List
import SolanaBench.TxCutoff.Coverage
import SolanaBench.TxCutoff.Preflight
import SolanaBench.TxCutoff.WalletSequence

/-! The engine on the wallets that the pre-flight hands over: which nonces they go on with, and
what they may have to pay. -/
namespace SolanaBench.TxCutoff

open Preflight Engine

/-- A transaction that is handed to the RPC, with its fees. -/
structure PaidSend where
  send : ScheduledSend
  gasLimit : UInt64
  maxFee : ℕ

/-- The bench on heads that come with their base fee. -/
def pricedBench (cfg : EngineConfig) : EventMachine Bench (BenchInput × ℕ) Output where
  step s x := (bench cfg).step s x.1

/-- What one input makes wallet `i` send. -/
def Bench.paid (cfg : EngineConfig) (gas : GasConfig) (gasLimit : UInt64) (i : ℕ) (s : Bench)
    (x : BenchInput × ℕ) : List PaidSend :=
  ((s.events cfg i x.1).filterMap WalletEvent.send?).map fun send =>
    ⟨send, gasLimit, gas.maxFee x.2⟩

def paidSends (cfg : EngineConfig) (gas : GasConfig) (gasLimit : UInt64) (i : ℕ) (s : Bench)
    (xs : List (BenchInput × ℕ)) : List PaidSend :=
  (pricedBench cfg).readings (Bench.paid cfg gas gasLimit i) s xs

section

variable {cfg : EngineConfig} {gas : GasConfig} {gasLimit : UInt64} {i : ℕ} {s : Bench}
  {w : Trader} {xs : List (BenchInput × ℕ)}

/-- A block that is sampled is one of the plan. -/
theorem blockIndex_of_prepares {h : Header} (hprepares : s.prepares cfg h = true)
    (attempts : ℕ → Attempt) : s.engine.blockIndex < cfg.schedule.totalBlocks ∧
      ((bench cfg).step s (.header h attempts)).1.engine.blockIndex = s.engine.blockIndex + 1 := by
  obtain ⟨hrun, hsamples⟩ := Bool.and_eq_true_iff.mp hprepares
  unfold Engine.samples at hsamples
  rcases header_cases cfg (s.signedHeader h attempts) hrun with ⟨hslot, -⟩ |
    ⟨slotMs, hslot, ⟨hlate, -⟩ | ⟨-, ⟨-, -, hnext⟩ | ⟨hrouter, -⟩⟩⟩
  · simp [hslot] at hsamples
  · have hlate : Engine.targetUnixMs h slotMs ≤ h.receivedUnixMs := hlate
    simp [hslot, not_lt.mpr hlate] at hsamples
  · refine ⟨Nat.lt_of_not_le fun hle => ?_, hnext⟩
    rw [(Schedule.slotMsFor_eq_none_iff _ _).mpr hle] at hslot
    cases hslot
  · simp [hrouter] at hsamples

theorem engine_blockIndex_le (cfg : EngineConfig) (e : Engine) (input : Input) (hplan : e.blockIndex ≤
    cfg.schedule.totalBlocks) : e.blockIndex ≤ ((engine cfg).step e input).1.blockIndex ∧
      ((engine cfg).step e input).1.blockIndex ≤ cfg.schedule.totalBlocks := by
  by_cases hrun : e.running
  · cases input with
    | header h =>
      rcases header_cases cfg h hrun with ⟨-, -, hkeep⟩ |
        ⟨slotMs, hslot, hcases⟩
      · rw [hkeep]
        exact ⟨le_rfl, hplan⟩
      · have hlt : e.blockIndex < cfg.schedule.totalBlocks := by
          refine Nat.lt_of_not_le fun hle => ?_
          rw [(Schedule.slotMsFor_eq_none_iff _ _).mpr hle] at hslot
          cases hslot
        rcases hcases with ⟨-, -, hnext⟩ | ⟨-, ⟨-, -, hnext⟩ | ⟨-, -, hkeep⟩⟩
        · rw [hnext]
          exact ⟨Nat.le_succ _, hlt⟩
        · rw [hnext]
          exact ⟨Nat.le_succ _, hlt⟩
        · rw [hkeep]
          exact ⟨le_rfl, hplan⟩
    | sendResult r =>
      have hkeep : ((engine cfg).step e (.sendResult r)).1.blockIndex = e.blockIndex := by
        rw [step_sendResult hrun]
        exact onResult_blockIndex r
      rw [hkeep]
      exact ⟨le_rfl, hplan⟩
    | ctrlC => exact ⟨le_rfl, hplan⟩
  · rw [step_blockIndex_of_stopped hrun]
    exact ⟨le_rfl, hplan⟩

/-- The nonces that wallet `i` has taken are the first ones from its start on, one for a block
at most. -/
structure Advances (cfg : EngineConfig) (start : UInt64) (i : ℕ) (s : Bench)
    (paid : List PaidSend) : Prop where
  planned : s.engine.blockIndex ≤ cfg.schedule.totalBlocks
  taken : ∃ n, n ≤ s.engine.blockIndex ∧
    (∃ t, s.wallets[i]? = some t ∧ t.1.nonce = start + UInt64.ofNat n) ∧
      List.Sublist (paid.map fun p => p.send.nonce) (noncesFrom start n)

variable {start : UInt64} {paid : List PaidSend}

/-- A wallet that has moved on in a round of the batch loop. -/
theorem nonces_prepare {n : ℕ} {t : Trader} (hnonce : t.1.nonce = start + UInt64.ofNat n)
    (hpaid : List.Sublist (paid.map fun p => p.send.nonce) (noncesFrom start n)) (a : Attempt)
    (gasLimit : UInt64) (maxFee : ℕ) : ∃ m, m ≤ n + 1 ∧ (t.prepare a).1.1.nonce = start + UInt64.ofNat m ∧
      List.Sublist ((paid ++ ([WalletEvent.prepared (t.prepare a).2].filterMap WalletEvent.send?).map
        fun send => PaidSend.mk send gasLimit maxFee).map fun p => p.send.nonce)
          (noncesFrom start m) := by
  have hmove : start + UInt64.ofNat n + 1 = start + UInt64.ofNat (n + 1) := by
    simp [UInt64.ofNat_add, UInt64.add_assoc]
  rcases t.prepare_cases a with hencode | ⟨hmoved, hsign | ⟨txHash, hsend⟩⟩
  · rw [hencode]
    refine ⟨n, Nat.le_succ n, hnonce, ?_⟩
    change List.Sublist ((paid ++ []).map fun p : PaidSend => p.send.nonce) _
    rwa [List.append_nil]
  · refine ⟨n + 1, le_rfl, ?_, ?_⟩
    · rw [hmoved, Wallet.consumeNonce_nonce, hnonce, hmove]
    · rw [hsign, noncesFrom_succ]
      change List.Sublist ((paid ++ []).map fun p : PaidSend => p.send.nonce) _
      rw [List.append_nil]
      exact hpaid.trans (List.sublist_append_left _ _)
  · refine ⟨n + 1, le_rfl, ?_, ?_⟩
    · rw [hmoved, Wallet.consumeNonce_nonce, hnonce, hmove]
    · rw [hsend, noncesFrom_succ, hnonce, List.map_append]
      exact hpaid.append (List.Sublist.refl _)

theorem Advances.step (h : Advances cfg start i s paid) (x : BenchInput × ℕ) :
    Advances cfg start i ((pricedBench cfg).step s x).1
      (paid ++ s.paid cfg gas gasLimit i x) := by
  obtain ⟨hplan, n, hn, ⟨t, ht, hnonce⟩, hpaid⟩ := h
  obtain ⟨hle, hplanned⟩ := engine_blockIndex_le cfg s.engine (x.1.toInput s) hplan
  rw [← (step_engine cfg s x.1).1] at hle hplanned
  have hidle (hwallet : ((pricedBench cfg).step s x).1.wallets[i]? = some t)
      (hpays : s.paid cfg gas gasLimit i x = []) :
      Advances cfg start i ((pricedBench cfg).step s x).1
        (paid ++ s.paid cfg gas gasLimit i x) := by
    rw [hpays, List.append_nil]
    exact ⟨hplanned, n, hn.trans hle, ⟨t, hwallet, hnonce⟩, hpaid⟩
  obtain ⟨input, baseFee⟩ := x
  cases input with
  | header hd attempts =>
    have hwallet := @step_header_wallet cfg s i t hd attempts ht
    by_cases hprepares : s.prepares cfg hd = true
    · obtain ⟨-, hnext⟩ := blockIndex_of_prepares hprepares attempts
      obtain ⟨m, hm, hmoved, hsends⟩ := nonces_prepare hnonce hpaid (attempts i)
        gasLimit (gas.maxFee baseFee)
      rw [if_pos hprepares] at hwallet
      refine ⟨hplanned, m, ?_, ⟨_, hwallet, hmoved⟩, ?_⟩
      · change m ≤ ((bench cfg).step s (.header hd attempts)).1.engine.blockIndex
        rw [hnext]
        exact hm.trans (Nat.succ_le_succ hn)
      · unfold Bench.paid
        rw [events_header, if_pos hprepares, ht]
        exact hsends
    · rw [if_neg hprepares] at hwallet
      refine hidle hwallet ?_
      unfold Bench.paid
      rw [events_header, if_neg hprepares]
      rfl
  | sendResult j r =>
    refine hidle ht ?_
    unfold Bench.paid
    rw [events_sendResult]
    split <;> rfl
  | ctrlC => exact hidle ht rfl

theorem paidSends_snoc (xs : List (BenchInput × ℕ)) (x : BenchInput × ℕ) :
    paidSends cfg gas gasLimit i s (xs ++ [x]) = paidSends cfg gas gasLimit i s xs ++
      ((pricedBench cfg).run s xs).1.paid cfg gas gasLimit i x :=
  (pricedBench cfg).readings_snoc _ s xs x

/-- The first state of the engine has no block of the plan behind it. -/
theorem advances_run {traders : List Trader} (hw : traders[i]? = some w) (cfg : EngineConfig)
    (gas : GasConfig) (gasLimit : UInt64) (xs : List (BenchInput × ℕ)) :
    Advances cfg w.1.nonce i ((pricedBench cfg).run (Bench.start cfg traders) xs).1
      (paidSends cfg gas gasLimit i (Bench.start cfg traders) xs) := by
  induction xs using List.reverseRecOn with
  | nil =>
    exact ⟨Nat.zero_le _, 0, le_rfl, ⟨w, hw, (UInt64.add_zero _).symm⟩, List.Sublist.refl _⟩
  | append_singleton xs x ih =>
    rw [EventMachine.run_snoc_fst, paidSends_snoc]
    exact ih.step x

/-- A transaction is signed with the gas limit of its wallet and the fee of its block. -/
theorem fees_of_mem {p : PaidSend} (hp : p ∈ paidSends cfg gas gasLimit i s xs) :
    p.gasLimit = gasLimit ∧ ∃ x ∈ xs, p.maxFee = gas.maxFee x.2 := by
  obtain ⟨pre, x, post, rfl, hstep⟩ := (pricedBench cfg).exists_split_of_mem_readings hp
  obtain ⟨send, -, rfl⟩ := List.mem_map.mp hstep
  exact ⟨rfl, x, by simp, rfl⟩

theorem Advances.length_le (h : Advances cfg start i s paid) :
    paid.length ≤ cfg.schedule.totalBlocks := by
  obtain ⟨hplan, n, hn, -, hpaid⟩ := h
  have hlength := hpaid.length_le
  rw [List.length_map, length_noncesFrom] at hlength
  exact hlength.trans (hn.trans hplan)

/-- The worst case is counted in 256 bits, which it fits. -/
theorem cost_maxFee (gas : GasConfig) (gasLimit : UInt64) (baseFee : ℕ) (txPerWallet : UInt64) :
    cost gasLimit (gas.maxFee baseFee) txPerWallet =
      gasLimit.toNat * gas.maxFee baseFee * txPerWallet.toNat := by
  have hfee : gas.maxFee baseFee < 2 ^ 128 := Nat.mod_lt _ (Nat.two_pow_pos 128)
  have hgas := gasLimit.toNat_lt
  have htx := txPerWallet.toNat_lt
  have hprice : gasLimit.toNat * gas.maxFee baseFee < 2 ^ 64 * 2 ^ 128 :=
    Nat.mul_lt_mul'' hgas hfee
  have htotal : gasLimit.toNat * gas.maxFee baseFee * txPerWallet.toNat <
      2 ^ 64 * 2 ^ 128 * 2 ^ 64 := Nat.mul_lt_mul'' hprice htx
  unfold cost
  rw [Nat.mod_eq_of_lt (hprice.trans (by decide)), Nat.mod_eq_of_lt (htotal.trans_eq (by decide))]

/-- The count of the pre-flight is the number of blocks, as far as that fits. -/
theorem toNat_txPerWallet {timing : TimingConfig} (hschedule : cfg.schedule.cfg = timing.toNat)
    (hfits : cfg.schedule.totalBlocks < 2 ^ 64) :
    (timing.txPerWallet .release).run.toNat = cfg.schedule.totalBlocks := by
  have hrange := cfg.schedule.range
  rw [hschedule] at hrange
  have hsub : (timing.endMs - timing.startMs).toNat = timing.endMs.toNat - timing.startMs.toNat :=
    UInt64.toNat_sub_of_le _ _ (UInt64.le_iff_toNat_le.mpr hrange)
  unfold Schedule.totalBlocks Schedule.slotsCount at hfits ⊢
  rw [hschedule] at hfits ⊢
  change (((timing.endMs - timing.startMs) / timing.stepMs + 1) *
    timing.samplesPerWalletPerSlot).toNat = _
  rw [UInt64.toNat_mul, UInt64.toNat_add, UInt64.toNat_div, hsub, Nat.mod_mul_mod]
  exact Nat.mod_eq_of_lt hfits

/-- Where no transaction is charged more for its gas than the worst case, the wallet pays no more
than the worst case. -/
theorem Advances.charged_le (h : Advances cfg start i s paid) (price : PaidSend → ℕ) (worst : ℕ)
    (hgas : ∀ p ∈ paid, p.gasLimit = gasLimit) (hprice : ∀ p ∈ paid, price p ≤ worst) :
    (paid.map fun p => p.gasLimit.toNat * price p).sum ≤
      gasLimit.toNat * worst * cfg.schedule.totalBlocks := by
  have hsum : (paid.map fun p => p.gasLimit.toNat * price p).sum ≤
      paid.length * (gasLimit.toNat * worst) := by
    have hcard := List.sum_le_card_nsmul (paid.map fun p => p.gasLimit.toNat * price p)
      (gasLimit.toNat * worst) ?_
    · simpa using hcard
    · intro c hc
      obtain ⟨p, hp, rfl⟩ := List.mem_map.mp hc
      rw [hgas p hp]
      exact Nat.mul_le_mul_left _ (hprice p hp)
  refine hsum.trans ?_
  rw [Nat.mul_comm]
  exact Nat.mul_le_mul_left _ h.length_le

end

/-- No wallet leaves a gap while `main` prepares the run, and when the engine takes over nothing is
outstanding and it goes on with the next nonces, at most one for a block of the plan. Unless the
counter wraps no nonce is used again. -/
theorem nonces_go_on (pcfg : Preflight.Config) (ans : Preflight.Answers)
    (wallets : List (Wallet × WalletAnswers)) :
    (∀ a ∈ (Preflight.main pcfg ans wallets).1, a.InSequence) ∧
      ∀ accounts outcome traders,
        Preflight.main pcfg ans wallets = (accounts, .ok (outcome, traders)) →
        ∀ (cfg : EngineConfig) (xs : List (BenchInput × ℕ)) (gasLimit : UInt64) (i : ℕ),
        ∀ a ∈ accounts[i]?,
          let used := a.sent.map PreflightTx.nonce ++
            (paidSends cfg pcfg.gas gasLimit i (Bench.start cfg traders) xs).map
              fun p => p.send.nonce
          a.confirmed = a.sent ∧
            List.Sublist used
              (noncesFrom a.initialNonce (a.sent.length + cfg.schedule.totalBlocks)) ∧
            (a.sent.length + cfg.schedule.totalBlocks ≤ 2 ^ 64 → used.Nodup) := by
  refine ⟨main_inSequence pcfg ans wallets, ?_⟩
  intro accounts outcome traders hmain cfg xs gasLimit i a ha
  obtain ⟨before, hrun, htraders⟩ := main_ok hmain
  obtain ⟨hbefore, w, hw, hwallet⟩ := htraders i a ha
  have hidle := run_idle hrun a (List.mem_of_getElem? hbefore)
  have hadvances := advances_run hw cfg pcfg.gas gasLimit xs
  obtain ⟨hplan, n, hn, -, hpaid⟩ := hadvances
  rw [hwallet, hidle.next] at hpaid
  have hused : List.Sublist (a.sent.map PreflightTx.nonce ++
      (paidSends cfg pcfg.gas gasLimit i (Bench.start cfg traders) xs).map fun p => p.send.nonce)
        (noncesFrom a.initialNonce (a.sent.length + cfg.schedule.totalBlocks)) := by
    rw [hidle.nonces, noncesFrom_add]
    exact (List.Sublist.refl _).append (hpaid.trans (noncesFrom_sublist _ (hn.trans hplan)))
  exact ⟨hidle.confirmed, hused, fun hfits => (noncesFrom_nodup _ hfits).sublist hused⟩

/-- One wallet at nonce 7 that has to approve token A and has just enough for three blocks. -/
def plainPreflight : Preflight.Config where
  chainId := 8453
  gas := ⟨fun baseFee => 3 * baseFee, 10, fun gasUsed => gasUsed + gasUsed / 5⟩
  timing := ⟨0, 0, 1, 3⟩
  addressesParse := true
  amountInA := some 10
  amountInB := some 10
  skipPrompt := true

def plainSubmission (txHash : TxHash) : Submission :=
  ⟨some txHash, some .accepted, [.pending, .mined (some 50_000) (some "0x1")]⟩

def plainWallet : Wallet × WalletAnswers where
  fst := ⟨"w1", 0⟩
  snd := {
    balance := some 1
    transactionCount := some 7
    approve := fun token =>
      ⟨some (if token = .a then 0 else threshold), some 100, plainSubmission 1⟩
    tokenBalance := fun _ => some 10
    calibration := plainSubmission 2
    finalBalance := some 55_800_000
    finalTokenBalance := fun _ => some 10 }

def plainAnswers : Preflight.Answers := ⟨some 8453, fun _ => some 40, some 100, false⟩

def plainOutcome : Outcome := ⟨[("w1", 60_000)], [("w1", 7)], 100⟩

/-- The wallet with the nonce after its approval and its calibration swap. -/
def plainTrader : Trader := (⟨"w1", 9⟩, gapTrader.2)

def plainAccounts : List Account := (Preflight.main plainPreflight plainAnswers [plainWallet]).1

theorem main_plain : Preflight.main plainPreflight plainAnswers [plainWallet] =
    (plainAccounts, .ok (plainOutcome, [plainTrader])) := rfl

def plainHeads : List (BenchInput × ℕ) := [(gapHeader 1, 90), (gapHeader 2, 100)]

theorem nonces_go_on_plain :
    (plainAccounts[0]?.map fun a => a.sent.map PreflightTx.nonce) = some [7, 8] ∧
      (paidSends gapConfig plainPreflight.gas 60_000 0 (Bench.start gapConfig [plainTrader])
        plainHeads).map (fun p => p.send.nonce) = [9, 10] ∧
      ∀ a ∈ plainAccounts[0]?, a.confirmed = a.sent := by
  obtain ⟨-, h⟩ := nonces_go_on plainPreflight plainAnswers [plainWallet]
  exact ⟨by decide, by decide, fun a ha =>
    (h plainAccounts plainOutcome [plainTrader] main_plain gapConfig plainHeads 60_000 0 a ha).1⟩

/-- A wallet that the pre-flight has let through can pay for its whole run, as long as no
transaction is charged more for its gas than the pre-flight's worst price. The signed maximum
itself is not above that price while the base fee is not above the one the pre-flight read. The
worst case of the wallet fits its 256 bits. -/
theorem run_within_balance (pcfg : Preflight.Config) (ans : Preflight.Answers)
    (wallets : List (Wallet × WalletAnswers)) (accounts : List Account) (outcome : Outcome)
    (traders : List Trader)
    (hmain : Preflight.main pcfg ans wallets = (accounts, .ok (outcome, traders)))
    (cfg : EngineConfig) (hschedule : cfg.schedule.cfg = pcfg.timing.toNat)
    (hfits : cfg.schedule.totalBlocks < 2 ^ 64) (xs : List (BenchInput × ℕ)) (i : ℕ) (a : Account)
    (ha : accounts[i]? = some a) :
    ∃ gasLimit balance, outcome.gasLimits[i]? = some gasLimit ∧
      a.answers.finalBalance = some balance ∧
      cost gasLimit.2 (pcfg.gas.maxFee outcome.baseFee) (pcfg.timing.txPerWallet .release).run =
        gasLimit.2.toNat * pcfg.gas.maxFee outcome.baseFee * cfg.schedule.totalBlocks ∧
      let paid := paidSends cfg pcfg.gas gasLimit.2 i (Bench.start cfg traders) xs
      (∀ price : PaidSend → ℕ, (∀ p ∈ paid, price p ≤ pcfg.gas.maxFee outcome.baseFee) →
        (paid.map fun p => p.gasLimit.toNat * price p).sum ≤ balance) ∧
      (Monotone pcfg.gas.scaleFee → pcfg.gas.scaleFee outcome.baseFee + pcfg.gas.tip < 2 ^ 128 →
        (∀ x ∈ xs, x.2 ≤ outcome.baseFee) →
          (paid.map fun p => p.gasLimit.toNat * p.maxFee).sum ≤ balance) := by
  obtain ⟨before, hrun, htraders⟩ := main_ok hmain
  obtain ⟨hbefore, w, hw, -⟩ := htraders i a ha
  obtain ⟨gasLimit, balance, hgas, hbalance, hcost⟩ := funded hrun hbefore
  have hexact := cost_maxFee pcfg.gas gasLimit.2 outcome.baseFee
    (pcfg.timing.txPerWallet .release).run
  rw [toNat_txPerWallet hschedule hfits] at hexact
  rw [hexact] at hcost
  have hadvances := advances_run hw cfg pcfg.gas gasLimit.2 xs
  have hcharged (price : PaidSend → ℕ)
      (hprice : ∀ p ∈ paidSends cfg pcfg.gas gasLimit.2 i (Bench.start cfg traders) xs,
        price p ≤ pcfg.gas.maxFee outcome.baseFee) :=
    (hadvances.charged_le price _ (fun p hp => (fees_of_mem hp).1) hprice).trans hcost
  refine ⟨gasLimit, balance, hgas, hbalance, hexact, hcharged, fun hscale hword hbase => ?_⟩
  refine hcharged PaidSend.maxFee fun p hp => ?_
  obtain ⟨-, x, hx, hfee⟩ := fees_of_mem hp
  rw [hfee, GasConfig.maxFee, GasConfig.maxFee, Nat.mod_eq_of_lt hword]
  exact (Nat.mod_le _ _).trans (Nat.add_le_add_right (hscale (hbase x hx)) _)

theorem run_within_balance_plain :
    let paid := paidSends gapConfig plainPreflight.gas 60_000 0 (Bench.start gapConfig [plainTrader])
      plainHeads
    paid.map PaidSend.maxFee = [280, 310] ∧
      (paid.map fun p => p.gasLimit.toNat * p.maxFee).sum ≤ 55_800_000 := by
  refine ⟨by decide, ?_⟩
  obtain ⟨gasLimit, balance, hgas, hbalance, -, -, hmax⟩ := run_within_balance plainPreflight
    plainAnswers [plainWallet] plainAccounts plainOutcome [plainTrader] main_plain gapConfig rfl
    (by decide) plainHeads 0 _ rfl
  obtain rfl : ("w1", 60_000) = gasLimit := Option.some.inj hgas
  obtain rfl : 55_800_000 = balance := Option.some.inj hbalance
  exact hmax (fun _ _ h => Nat.mul_le_mul_left 3 h) (by decide) (by decide)

end SolanaBench.TxCutoff
