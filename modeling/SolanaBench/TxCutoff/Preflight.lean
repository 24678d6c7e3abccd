import Mathlib.Data.List.Sort
import SolanaBench.Lib.FailFast
import SolanaBench.TxCutoff.ScheduleWords
import SolanaBench.TxCutoff.Wallet

/-! The pre-flight of the transaction cutoff bench: the checks of the RPC endpoint and of the
wallets, the approvals and the calibration swaps that it sends for them, and the projected cost.
It stops at the first thing that is wrong. -/
namespace SolanaBench.TxCutoff

/-- The sides of the pool. -/
inductive Token
  | a
  | b
  deriving DecidableEq, Repr

namespace Preflight

/-- The conversions from and to floating point are parameters. -/
structure GasConfig where
  /-- `base_fee as f64 * max_fee_multiplier`, as `u128`. -/
  scaleFee : ℕ → ℕ
  /-- `max_priority_fee_gwei * 1e9`, as `u128`. -/
  tip : ℕ
  /-- `gas_used as f64 * 1.2`, as `u64`. -/
  gasLimit : UInt64 → UInt64

/-- The sum is a `u128`. -/
def GasConfig.maxFee (gas : GasConfig) (baseFee : ℕ) : ℕ := (gas.scaleFee baseFee + gas.tip) % 2 ^ 128

structure Config where
  chainId : ℕ
  gas : GasConfig
  timing : TimingConfig
  /-- The router and both tokens. -/
  addressesParse : Bool
  amountInA : Option ℕ
  amountInB : Option ℕ
  skipPrompt : Bool

inductive TxKind
  | approve (token : Token)
  | calibration (direction : SwapDirection)
  deriving DecidableEq, Repr

/-- What one call for a receipt answers. -/
inductive Poll
  | failed
  | pending
  | mined (gasUsed : Option UInt64) (status : Option String)

/-- How the fallible steps of a transaction end. -/
structure Submission where
  signs : Option TxHash
  send : Option SendOutcome
  polls : List Poll

structure TokenAnswers where
  allowance : Option ℕ
  baseFee : Option ℕ
  submission : Submission

structure WalletAnswers where
  balance : Option ℕ
  transactionCount : Option UInt64
  approve : Token → TokenAnswers
  tokenBalance : Token → Option ℕ
  calibration : Submission
  finalBalance : Option ℕ
  /-- What `main` reads after the pre-flight. -/
  finalTokenBalance : Token → Option ℕ

structure Answers where
  chainId : Option ℕ
  /-- The round trips of `eth_blockNumber` in ms. -/
  rtt : Fin 3 → Option ℕ
  baseFee : Option ℕ
  proceed : Bool

inductive Bail
  | rpc
  | chainMismatch (config rpc : ℕ)
  | slowRpc (p50 : ℕ)
  | zeroBalance (label : String)
  | badConfig
  | sign
  | rejected (kind : TxKind) (code : ℤ) (message : String)
  | noGasUsed
  | reverted
  | receiptTimeout
  | insufficientTokens (label : String)
  | insufficientBalance (wallets : List (String × ℕ × ℕ))
  | aborted
  deriving DecidableEq, Repr

structure PreflightTx where
  kind : TxKind
  nonce : UInt64
  gasLimit : ℕ
  maxFee : ℕ
  txHash : TxHash
  deriving DecidableEq, Repr

/-- A wallet with what the endpoints will answer for it, and what the pre-flight has sent. -/
structure Account where
  wallet : Wallet
  answers : WalletAnswers
  /-- Its entry in `wallet_initial_nonces`. -/
  initialNonce : UInt64
  sent : List PreflightTx := []
  /-- Those whose receipt was waited for. -/
  confirmed : List PreflightTx := []

def Account.start (w : Wallet × WalletAnswers) : Account where
  wallet := w.1
  answers := w.2
  initialNonce := w.1.nonce

/-! ## Transactions -/

/-- The polls until the timeout. -/
def waitForReceipt : List Poll → Except Bail UInt64
  | [] => .error .receiptTimeout
  | .failed :: _ => .error .rpc
  | .pending :: polls => waitForReceipt polls
  | .mined none _ :: _ => .error .noGasUsed
  | .mined (some gasUsed) status :: _ =>
    if status.getD "0x0" = "0x0" then .error .reverted else .ok gasUsed

/-- From the nonce to the receipt. -/
def submit (a : Account) (kind : TxKind) (gasLimit maxFee : ℕ) (s : Submission) :
    Account × Except Bail UInt64 :=
  let (nonce, wallet) := a.wallet.consumeNonce
  let a := { a with wallet }
  match s.signs with
  | none => (a, .error .sign)
  | some txHash =>
    let tx : PreflightTx := ⟨kind, nonce, gasLimit, maxFee, txHash⟩
    let a := { a with sent := a.sent ++ [tx] }
    match s.send with
    | none => (a, .error .rpc)
    | some (.rejected code message) => (a, .error (.rejected kind code message))
    | some .accepted =>
      match waitForReceipt s.polls with
      | .error e => (a, .error e)
      | .ok gasUsed => ({ a with confirmed := a.confirmed ++ [tx] }, .ok gasUsed)

/-- `U256::MAX / 2`. -/
def threshold : ℕ := (2 ^ 256 - 1) / 2

def approveToken (cfg : Config) (token : Token) (a : Account) : Account × Except Bail Unit :=
  let ans := a.answers.approve token
  match ans.allowance with
  | none => (a, .error .rpc)
  | some allowance =>
    if allowance ≥ threshold then (a, .ok ())
    else
      match ans.baseFee with
      | none => (a, .error .rpc)
      | some baseFee =>
        let r := submit a (.approve token) 80_000 (cfg.gas.maxFee baseFee) ans.submission
        (r.1, r.2.map fun _ => ())

/-- `approve_tokens_if_needed` for one wallet. -/
def approveTokens (cfg : Config) (a : Account) : Account × Except Bail Unit :=
  match approveToken cfg .a a with
  | (a, .error e) => (a, .error e)
  | (a, .ok _) => approveToken cfg .b a

/-- The gas limit of the wallet's entry in `gas_limits` comes out. -/
def performCalibrationSwap (cfg : Config) (baseFee : ℕ) (a : Account) :
    Account × Except Bail (String × UInt64) :=
  match a.answers.tokenBalance .a, a.answers.tokenBalance .b with
  | some balanceA, some balanceB =>
    match cfg.amountInA, cfg.amountInB with
    | some amountInA, some amountInB =>
      match PingPongState.initializeWithAmounts balanceA amountInA balanceB amountInB with
      | none => (a, .error (.insufficientTokens a.wallet.label))
      | some state =>
        let r := submit a (.calibration state.currentDirection) 250_000 (cfg.gas.maxFee baseFee)
          a.answers.calibration
        (r.1, r.2.map fun gasUsed => (a.wallet.label, cfg.gas.gasLimit gasUsed))
    | _, _ => (a, .error .badConfig)
  | _, _ => (a, .error .rpc)

/-! ## Costs -/

structure WalletGas where
  label : String
  gasUsed : UInt64

structure CostProjection where
  perWalletRealistic : List ℕ
  perWalletWorst : List ℕ
  totalRealistic : ℕ
  totalWorst : ℕ

/-- Products of `U256`. -/
def cost (gasUsed : UInt64) (effective : ℕ) (txPerWallet : UInt64) : ℕ :=
  gasUsed.toNat * effective % 2 ^ 256 * txPerWallet.toNat % 2 ^ 256

def projectCost (gas : GasConfig) (walletsGas : List WalletGas) (baseFee : ℕ)
    (txPerWallet : UInt64) : CostProjection :=
  let realistic := walletsGas.map fun w => cost w.gasUsed ((baseFee + gas.tip) % 2 ^ 128) txPerWallet
  let worst := walletsGas.map fun w => cost w.gasUsed (gas.maxFee baseFee) txPerWallet
  { perWalletRealistic := realistic
    perWalletWorst := worst
    totalRealistic := realistic.foldl (fun total c => (total + c) % 2 ^ 256) 0
    totalWorst := worst.foldl (fun total c => (total + c) % 2 ^ 256) 0 }

/-! ## The steps -/

/-- The second of the sorted samples. -/
def rttP50 (a b c : ℕ) : ℕ := ([a, b, c].insertionSort (· ≤ ·)).getD 1 0

def checkRpc (cfg : Config) (ans : Answers) : Except Bail Unit :=
  match ans.chainId with
  | none => .error .rpc
  | some chainId =>
    if chainId ≠ cfg.chainId then .error (.chainMismatch cfg.chainId chainId)
    else
      match ans.rtt 0, ans.rtt 1, ans.rtt 2 with
      | some a, some b, some c =>
        if rttP50 a b c > 200 then .error (.slowRpc (rttP50 a b c)) else .ok ()
      | _, _, _ => .error .rpc

/-- The balance is checked and the nonce taken over. -/
def load (a : Account) : Account × Except Bail (String × UInt64) :=
  match a.answers.balance with
  | none => (a, .error .rpc)
  | some balance =>
    if balance = 0 then (a, .error (.zeroBalance a.wallet.label))
    else
      match a.answers.transactionCount with
      | none => (a, .error .rpc)
      | some nonce =>
        ({ a with wallet := { a.wallet with nonce }, initialNonce := nonce },
          .ok (a.wallet.label, nonce))

def readBalance (a : Account) : Account × Except Bail ℕ :=
  match a.answers.finalBalance with
  | none => (a, .error .rpc)
  | some balance => (a, .ok balance)

structure Outcome where
  gasLimits : List (String × UInt64)
  walletInitialNonces : List (String × UInt64)
  baseFee : ℕ
  deriving DecidableEq, Repr

/-- The wallets whose balance is below the worst case. -/
def insufficient (accounts : List Account) (balances worst : List ℕ) : List (String × ℕ × ℕ) :=
  ((accounts.map fun a => a.wallet.label).zip (balances.zip worst)).filter fun w => w.2.1 < w.2.2

/-- The cost projection with the check of the balances, and the prompt. -/
def checkFunds (cfg : Config) (ans : Answers) (accounts : List Account)
    (nonces gasLimits : List (String × UInt64)) (baseFee : ℕ) : Except Bail Outcome :=
  let txPerWallet := (cfg.timing.txPerWallet .release).run
  let projection := projectCost cfg.gas (gasLimits.map fun g => ⟨g.1, g.2⟩) baseFee txPerWallet
  match (failFast readBalance accounts).2 with
  | .error e => .error e
  | .ok balances =>
    let insufficient := insufficient accounts balances projection.perWalletWorst
    if insufficient ≠ [] then .error (.insufficientBalance insufficient)
    else if cfg.skipPrompt || ans.proceed then .ok ⟨gasLimits, nonces, baseFee⟩
    else .error .aborted

def run (cfg : Config) (ans : Answers) (wallets : List (Wallet × WalletAnswers)) :
    List Account × Except Bail Outcome :=
  let accounts := wallets.map Account.start
  match checkRpc cfg ans with
  | .error e => (accounts, .error e)
  | .ok _ =>
    match failFast load accounts with
    | (accounts, .error e) => (accounts, .error e)
    | (accounts, .ok nonces) =>
      if !cfg.addressesParse then (accounts, .error .badConfig)
      else
        match failFast (approveTokens cfg) accounts with
        | (accounts, .error e) => (accounts, .error e)
        | (accounts, .ok _) =>
          match ans.baseFee with
          | none => (accounts, .error .rpc)
          | some baseFee =>
            match failFast (performCalibrationSwap cfg baseFee) accounts with
            | (accounts, .error e) => (accounts, .error e)
            | (accounts, .ok gasLimits) =>
              (accounts, checkFunds cfg ans accounts nonces gasLimits baseFee)

/-- `main` chooses a direction for the engine, with the balances after the pre-flight. -/
def takeOver (cfg : Config) (a : Account) : Account × Except Bail Trader :=
  match cfg.amountInA, cfg.amountInB with
  | some amountInA, some amountInB =>
    match a.answers.finalTokenBalance .a, a.answers.finalTokenBalance .b with
    | some balanceA, some balanceB =>
      match PingPongState.initializeWithAmounts balanceA amountInA balanceB amountInB with
      | none => (a, .error (.insufficientTokens a.wallet.label))
      | some state => (a, .ok (a.wallet, state))
    | _, _ => (a, .error .rpc)
  | _, _ => (a, .error .badConfig)

/-- `main` up to the start of the engine. -/
def main (cfg : Config) (ans : Answers) (wallets : List (Wallet × WalletAnswers)) :
    List Account × Except Bail (Outcome × List Trader) :=
  match run cfg ans wallets with
  | (accounts, .error e) => (accounts, .error e)
  | (accounts, .ok outcome) =>
    match failFast (takeOver cfg) accounts with
    | (accounts, .error e) => (accounts, .error e)
    | (accounts, .ok traders) => (accounts, .ok (outcome, traders))

/-! ## Nonces -/

/-- `n` nonces from `start` on. -/
def noncesFrom (start : UInt64) (n : ℕ) : List UInt64 :=
  (List.range n).map fun k => start + UInt64.ofNat k

@[simp] theorem length_noncesFrom (start : UInt64) (n : ℕ) : (noncesFrom start n).length = n := by
  simp [noncesFrom]

theorem noncesFrom_add (start : UInt64) (m n : ℕ) : noncesFrom start (m + n) =
    noncesFrom start m ++ noncesFrom (start + UInt64.ofNat m) n := by
  simp [noncesFrom, List.range_add, UInt64.ofNat_add, UInt64.add_assoc]

/-- The counter does not come back to a nonce before it wraps. -/
theorem noncesFrom_nodup (start : UInt64) {n : ℕ} (h : n ≤ 2 ^ 64) : (noncesFrom start n).Nodup := by
  refine List.Nodup.map_on (fun j hj k hk heq => ?_) List.nodup_range
  have hj := (List.mem_range.mp hj).trans_le h
  have hk := (List.mem_range.mp hk).trans_le h
  have hsame : UInt64.ofNat j = UInt64.ofNat k := UInt64.add_right_inj start |>.mp heq
  rw [← UInt64.toNat_ofNat_of_lt' hj, ← UInt64.toNat_ofNat_of_lt' hk, hsame]

theorem noncesFrom_sublist (start : UInt64) {m n : ℕ} (h : m ≤ n) :
    List.Sublist (noncesFrom start m) (noncesFrom start n) := by
  obtain ⟨k, rfl⟩ := Nat.exists_eq_add_of_le h
  rw [noncesFrom_add]
  exact List.sublist_append_left _ _

theorem noncesFrom_succ (start : UInt64) (n : ℕ) :
    noncesFrom start (n + 1) = noncesFrom start n ++ [start + UInt64.ofNat n] := by
  simp [noncesFrom, List.range_succ]

/-- The transactions of the wallet carry the nonces from the account's count on, and were all
confirmed but possibly the last. -/
structure Account.InSequence (a : Account) : Prop where
  nonces : a.sent.map PreflightTx.nonce = noncesFrom a.initialNonce a.sent.length
  confirmed : a.confirmed <+: a.sent
  last : a.sent.length ≤ a.confirmed.length + 1

/-- Between two transactions the wallet has the next nonce, and nothing is outstanding. -/
structure Account.Idle (a : Account) : Prop where
  nonces : a.sent.map PreflightTx.nonce = noncesFrom a.initialNonce a.sent.length
  confirmed : a.confirmed = a.sent
  next : a.wallet.nonce = a.initialNonce + UInt64.ofNat a.sent.length

section

variable {cfg : Config} {ans : Answers} {a : Account} {wallets : List (Wallet × WalletAnswers)}
  {accounts : List Account} {outcome : Outcome}

theorem Account.Idle.inSequence (h : a.Idle) : a.InSequence where
  nonces := h.nonces
  confirmed := h.confirmed ▸ List.prefix_rfl
  last := h.confirmed ▸ Nat.le_succ _

theorem Account.idle_start (w : Wallet × WalletAnswers) : (Account.start w).Idle where
  nonces := rfl
  confirmed := rfl
  next := (UInt64.add_zero _).symm

/-- The effects of a transaction up to its receipt. -/
theorem submit_spec (h : a.Idle) (kind : TxKind) (gasLimit maxFee : ℕ) (s : Submission) :
    (submit a kind gasLimit maxFee s).1.InSequence ∧
      ∀ gasUsed, (submit a kind gasLimit maxFee s).2 = .ok gasUsed →
        (submit a kind gasLimit maxFee s).1.Idle := by
  have hnonces (txHash : TxHash) :
      (a.sent ++ [PreflightTx.mk kind a.wallet.nonce gasLimit maxFee txHash]).map
          PreflightTx.nonce = noncesFrom a.initialNonce (a.sent.length + 1) := by
    rw [List.map_append, h.nonces, noncesFrom_succ, h.next]
    rfl
  have hsent (txHash : TxHash) : ({ a with
      wallet := a.wallet.consumeNonce.2
      sent := a.sent ++ [⟨kind, a.wallet.nonce, gasLimit, maxFee, txHash⟩] } : Account).InSequence :=
    ⟨by simpa using hnonces txHash, by rw [h.confirmed]; exact List.prefix_append _ _,
      by simp [h.confirmed]⟩
  unfold submit
  dsimp only [Wallet.consumeNonce_fst]
  cases hsigns : s.signs with
  | none =>
    have hunsigned : ({ a with wallet := a.wallet.consumeNonce.2 } : Account).InSequence :=
      ⟨h.nonces, h.inSequence.confirmed, h.inSequence.last⟩
    exact ⟨hunsigned, nofun⟩
  | some txHash =>
    dsimp only
    cases hsend : s.send with
    | none => exact ⟨hsent txHash, nofun⟩
    | some outcome =>
      cases outcome with
      | rejected code message => exact ⟨hsent txHash, nofun⟩
      | accepted =>
        dsimp only
        cases hreceipt : waitForReceipt s.polls with
        | error e => exact ⟨hsent txHash, nofun⟩
        | ok gasUsed =>
          have hidle : ({ a with
              wallet := a.wallet.consumeNonce.2
              sent := a.sent ++ [⟨kind, a.wallet.nonce, gasLimit, maxFee, txHash⟩]
              confirmed := a.confirmed ++
                [⟨kind, a.wallet.nonce, gasLimit, maxFee, txHash⟩] } : Account).Idle := by
            refine ⟨by simpa using hnonces txHash, by rw [h.confirmed], ?_⟩
            simp [h.next, UInt64.ofNat_add, UInt64.add_assoc]
          exact ⟨hidle.inSequence, fun _ _ => hidle⟩

/-- The same where only a part of the receipt is used. -/
theorem submit_map_spec {β : Type} (h : a.Idle) (kind : TxKind) (gasLimit maxFee : ℕ)
    (s : Submission) (g : UInt64 → β) :
    (submit a kind gasLimit maxFee s).1.InSequence ∧
      ∀ b, (submit a kind gasLimit maxFee s).2.map g = .ok b →
        (submit a kind gasLimit maxFee s).1.Idle := by
  obtain ⟨hsequence, hidle⟩ := submit_spec h kind gasLimit maxFee s
  refine ⟨hsequence, fun b hok => ?_⟩
  cases hgas : (submit a kind gasLimit maxFee s).2 with
  | error e => simp [hgas, Except.map] at hok
  | ok gasUsed => exact hidle gasUsed hgas

/-- A round keeps the sequence, and leaves the wallet idle unless it fails. -/
def Keeps {β : Type} (f : Account → Account × Except Bail β) : Prop :=
  ∀ a : Account, a.Idle → (f a).1.InSequence ∧ ∀ b, (f a).2 = .ok b → (f a).1.Idle

theorem keeps_approveToken (cfg : Config) (token : Token) : Keeps (approveToken cfg token) := by
  intro a h
  unfold approveToken
  dsimp only
  split
  · exact ⟨h.inSequence, nofun⟩
  · split
    · exact ⟨h.inSequence, fun _ _ => h⟩
    · split
      · exact ⟨h.inSequence, nofun⟩
      · exact submit_map_spec h _ _ _ _ _

theorem keeps_approveTokens (cfg : Config) : Keeps (approveTokens cfg) := by
  intro a h
  obtain ⟨hsequence, hidle⟩ := keeps_approveToken cfg .a a h
  unfold approveTokens
  split
  · next a' e heq =>
    rw [heq] at hsequence
    exact ⟨hsequence, nofun⟩
  · next a' b heq =>
    rw [heq] at hidle
    exact keeps_approveToken cfg .b a' (hidle b rfl)

theorem keeps_performCalibrationSwap (cfg : Config) (baseFee : ℕ) :
    Keeps (performCalibrationSwap cfg baseFee) := by
  intro a h
  unfold performCalibrationSwap
  split
  · split
    · split
      · exact ⟨h.inSequence, nofun⟩
      · exact submit_map_spec h _ _ _ _ _
    · exact ⟨h.inSequence, nofun⟩
  · exact ⟨h.inSequence, nofun⟩

theorem keeps_takeOver (cfg : Config) : Keeps (takeOver cfg) := by
  intro a h
  unfold takeOver
  split
  · split
    · split
      · exact ⟨h.inSequence, nofun⟩
      · exact ⟨h.inSequence, fun _ _ => h⟩
    · exact ⟨h.inSequence, nofun⟩
  · exact ⟨h.inSequence, nofun⟩

theorem keeps_load (h : a.sent = []) (hidle : a.Idle) :
    (load a).1.InSequence ∧ ∀ b, (load a).2 = .ok b → (load a).1.Idle := by
  have hconfirmed : a.confirmed = [] := hidle.confirmed.trans h
  unfold load
  split
  · exact ⟨hidle.inSequence, nofun⟩
  · split
    · exact ⟨hidle.inSequence, nofun⟩
    · split
      · exact ⟨hidle.inSequence, nofun⟩
      · next nonce _ =>
        have hloaded : ({ a with
            wallet := { a.wallet with nonce }, initialNonce := nonce } : Account).Idle := by
          refine ⟨?_, hidle.confirmed, ?_⟩
          · simp [h, noncesFrom]
          · simp [h]
        exact ⟨hloaded.inSequence, fun _ _ => hloaded⟩

/-- A loop of such rounds. -/
theorem Keeps.loop {β : Type} {f : Account → Account × Except Bail β} (hf : Keeps f)
    (h : ∀ a ∈ accounts, a.Idle) :
    (∀ a ∈ (failFast f accounts).1, a.InSequence) ∧
      ∀ as bs, failFast f accounts = (as, .ok bs) → ∀ a ∈ as, a.Idle := by
  refine ⟨FailFast.forall_mem (fun a ha => (hf a ha).1) (fun a ha => ha.inSequence) h,
    fun as bs hok a ha => ?_⟩
  obtain ⟨i, hi⟩ := List.mem_iff_getElem?.mp ha
  obtain ⟨x, b, hx, -, heq⟩ := FailFast.of_output hok hi
  have hidle := (hf x (h x (List.mem_of_getElem? hx))).2 b
  rw [heq] at hidle
  exact hidle rfl

theorem loaded_idle {loaded : List Account} {nonces : List (String × UInt64)}
    (h : failFast load (wallets.map Account.start) = (loaded, .ok nonces)) :
    ∀ a ∈ loaded, a.Idle := by
  intro a ha
  obtain ⟨i, hi⟩ := List.mem_iff_getElem?.mp ha
  obtain ⟨x, b, hx, -, heq⟩ := FailFast.of_output h hi
  obtain ⟨w, -, rfl⟩ := List.mem_map.mp (List.mem_of_getElem? hx)
  have hidle := (keeps_load rfl (Account.idle_start w)).2 b
  rw [heq] at hidle
  exact hidle rfl

theorem run_inSequence (cfg : Config) (ans : Answers) (wallets : List (Wallet × WalletAnswers)) :
    ∀ a ∈ (run cfg ans wallets).1, a.InSequence := by
  have hstart : ∀ a ∈ wallets.map Account.start, a.Idle ∧ a.sent = [] := by
    intro a ha
    obtain ⟨w, -, rfl⟩ := List.mem_map.mp ha
    exact ⟨Account.idle_start w, rfl⟩
  have hload : ∀ a ∈ (failFast load (wallets.map Account.start)).1, a.InSequence :=
    FailFast.forall_mem (fun a ha => (keeps_load ha.2 ha.1).1) (fun a ha => ha.1.inSequence) hstart
  unfold run
  dsimp only
  split
  · exact fun a ha => (hstart a ha).1.inSequence
  · split
    · next loaded e hloop =>
      rw [hloop] at hload
      exact hload
    · next loaded nonces hloop =>
      have hidle := loaded_idle hloop
      split
      · exact fun a ha => (hidle a ha).inSequence
      · have happrove := (keeps_approveTokens cfg).loop hidle
        split
        · next approved e hloop =>
          rw [hloop] at happrove
          exact happrove.1
        · next approved units hloop =>
          have hidle := happrove.2 approved units hloop
          split
          · exact fun a ha => (hidle a ha).inSequence
          · next baseFee _ =>
            have hcalibrate := (keeps_performCalibrationSwap cfg baseFee).loop hidle
            split
            · next calibrated e hloop =>
              rw [hloop] at hcalibrate
              exact hcalibrate.1
            · next calibrated gasLimits hloop =>
              exact fun a ha => (hcalibrate.2 calibrated gasLimits hloop a ha).inSequence

/-- The balances are read, none is below the worst case, and the run is agreed to. -/
theorem checkFunds_ok {nonces gasLimits : List (String × UInt64)} {baseFee : ℕ}
    (h : checkFunds cfg ans accounts nonces gasLimits baseFee = .ok outcome) :
    outcome = ⟨gasLimits, nonces, baseFee⟩ ∧ ∃ balances,
      (failFast readBalance accounts).2 = .ok balances ∧
      insufficient accounts balances (projectCost cfg.gas (gasLimits.map fun g => ⟨g.1, g.2⟩) baseFee
        (cfg.timing.txPerWallet .release).run).perWalletWorst = [] := by
  unfold checkFunds at h
  dsimp only at h
  split at h
  · cases h
  · next balances hbalances =>
    split at h
    · cases h
    · next henough =>
      split at h
      · cases h
        exact ⟨rfl, balances, hbalances, not_not.mp henough⟩
      · cases h

/-- What the pre-flight went through when it hands over. -/
theorem run_ok (h : run cfg ans wallets = (accounts, .ok outcome)) :
    ∃ loaded nonces approved units gasLimits,
      checkRpc cfg ans = .ok () ∧
      failFast load (wallets.map Account.start) = (loaded, .ok nonces) ∧
      failFast (approveTokens cfg) loaded = (approved, .ok units) ∧
      failFast (performCalibrationSwap cfg outcome.baseFee) approved = (accounts, .ok gasLimits) ∧
      checkFunds cfg ans accounts nonces gasLimits outcome.baseFee = .ok outcome := by
  unfold run at h
  dsimp only at h
  split at h
  · cases h
  · next hrpc =>
    split at h
    · cases h
    · next loaded nonces hload =>
      split at h
      · cases h
      · split at h
        · cases h
        · next approved units happrove =>
          split at h
          · cases h
          · next baseFee hbaseFee =>
            split at h
            · cases h
            · next calibrated gasLimits hcalibrate =>
              obtain ⟨rfl, hfunds⟩ := Prod.mk.inj h
              obtain ⟨rfl, -⟩ := checkFunds_ok hfunds
              exact ⟨loaded, nonces, approved, units, gasLimits, hrpc, hload, happrove, hcalibrate,
                hfunds⟩

/-- Each wallet has its gas limit and enough for the worst case of all its transactions. -/
theorem funded (h : run cfg ans wallets = (accounts, .ok outcome)) {i : ℕ}
    (ha : accounts[i]? = some a) : ∃ gasLimit balance, outcome.gasLimits[i]? = some gasLimit ∧
      a.answers.finalBalance = some balance ∧
      cost gasLimit.2 (cfg.gas.maxFee outcome.baseFee) (cfg.timing.txPerWallet .release).run ≤
        balance := by
  obtain ⟨-, nonces, approved, -, gasLimits, -, -, -, hcalibrate, hfunds⟩ := run_ok h
  obtain ⟨houtcome, balances, hbalances, henough⟩ := checkFunds_ok hfunds
  obtain ⟨-, gasLimit, -, hgas, -⟩ := FailFast.of_output hcalibrate ha
  obtain ⟨_, balance, -, hbalance, hread⟩ := FailFast.of_input (Prod.ext rfl hbalances) ha
  refine ⟨gasLimit, balance, by rw [houtcome]; exact hgas, ?_, ?_⟩
  · unfold readBalance at hread
    split at hread
    · cases hread
    · next hfinal =>
      cases hread
      exact hfinal
  · by_contra hless
    have hworst : (projectCost cfg.gas (gasLimits.map fun g => ⟨g.1, g.2⟩) outcome.baseFee
        (cfg.timing.txPerWallet .release).run).perWalletWorst[i]? = some
          (cost gasLimit.2 (cfg.gas.maxFee outcome.baseFee)
            (cfg.timing.txPerWallet .release).run) := by
      simp [projectCost, hgas]
    have hpair : (balances.zip (projectCost cfg.gas (gasLimits.map fun g => ⟨g.1, g.2⟩)
        outcome.baseFee (cfg.timing.txPerWallet .release).run).perWalletWorst)[i]? =
          some (balance, _) := List.getElem?_zip_eq_some.mpr ⟨hbalance, hworst⟩
    have hlabel : (accounts.map fun a => a.wallet.label)[i]? = some a.wallet.label := by simp [ha]
    have hzip : _ = some (a.wallet.label, _, _) := List.getElem?_zip_eq_some.mpr ⟨hlabel, hpair⟩
    have hmem := List.mem_of_getElem? hzip
    exact List.filter_eq_nil_iff.mp henough _ hmem (decide_eq_true (not_le.mp hless))

theorem run_idle (h : run cfg ans wallets = (accounts, .ok outcome)) : ∀ a ∈ accounts, a.Idle := by
  obtain ⟨loaded, nonces, approved, units, gasLimits, -, hload, happrove, hcalibrate, -⟩ := run_ok h
  have hidle := ((keeps_approveTokens cfg).loop (loaded_idle hload)).2 approved units happrove
  exact ((keeps_performCalibrationSwap cfg outcome.baseFee).loop hidle).2 accounts gasLimits hcalibrate

theorem takeOver_ok {a' : Account} {w : Trader} (h : takeOver cfg a = (a', .ok w)) :
    a' = a ∧ w.1 = a.wallet := by
  unfold takeOver at h
  split at h
  · split at h
    · split at h
      · cases h
      · cases h
        exact ⟨rfl, rfl⟩
    · cases h
  · cases h

/-- Whatever the endpoints answer, every wallet sends its transactions in sequence. -/
theorem main_inSequence (cfg : Config) (ans : Answers) (wallets : List (Wallet × WalletAnswers)) :
    ∀ a ∈ (main cfg ans wallets).1, a.InSequence := by
  have hrun := run_inSequence cfg ans wallets
  unfold main
  split
  · next accounts e heq =>
    rw [heq] at hrun
    exact hrun
  · next accounts outcome heq =>
    have hloop := ((keeps_takeOver cfg).loop (run_idle heq)).1
    split
    · next heq =>
      rw [heq] at hloop
      exact hloop
    · next heq =>
      rw [heq] at hloop
      exact hloop

/-- The accounts that `main` hands over are those of the pre-flight, each with its trader. -/
theorem main_ok {traders : List Trader}
    (h : main cfg ans wallets = (accounts, .ok (outcome, traders))) :
    ∃ before, run cfg ans wallets = (before, .ok outcome) ∧
      ∀ (i : ℕ) (a : Account), accounts[i]? = some a →
        before[i]? = some a ∧ ∃ w : Trader, traders[i]? = some w ∧ w.1 = a.wallet := by
  unfold main at h
  split at h
  · cases h
  · next before outcome' hrun =>
    split at h
    · cases h
    · next accounts' traders' hloop =>
      cases h
      refine ⟨before, hrun, fun i a ha => ?_⟩
      obtain ⟨x, w, hx, hw, heq⟩ := FailFast.of_output hloop ha
      obtain ⟨rfl, hwallet⟩ := takeOver_ok heq
      exact ⟨hx, w, hw, hwallet⟩

end

end Preflight
end SolanaBench.TxCutoff
