import Mathlib.Data.List.Chain
import SolanaBench.TxCutoff.Wallet

/-! The nonces and the directions of one wallet over a run. The specification counts a nonce when
the RPC has accepted the transaction that carries it and turns the direction when a swap is
scheduled; the batch loop does both before it signs. -/
namespace SolanaBench.TxCutoff

/-- What happens to one wallet in a run. -/
inductive WalletEvent
  | prepared (p : Prepared)
  | answered (accepted : Bool)
  deriving DecidableEq, Repr

namespace WalletEvent

/-- The transaction that is handed to the RPC. -/
def send? : WalletEvent → Option ScheduledSend
  | .prepared p => p.send?
  | .answered _ => none

def isSend (e : WalletEvent) : Bool := e.send?.isSome

def isSignFailure : WalletEvent → Bool
  | .prepared .signFailed => true
  | .prepared .encodeFailed => false
  | .prepared (.scheduled _) => false
  | .answered _ => false

def isAccepted : WalletEvent → Bool
  | .prepared _ => false
  | .answered accepted => accepted

def isRejected : WalletEvent → Bool
  | .prepared _ => false
  | .answered accepted => !accepted

/-- The nonces, and turns, that the wallet takes. -/
def taken (e : WalletEvent) : ℕ := e.send?.toList.length + if e.isSignFailure then 1 else 0

end WalletEvent

/-! ## The law -/

abbrev WalletTrace := List WalletEvent

namespace WalletTrace

def sends (tr : WalletTrace) : List ScheduledSend := tr.filterMap WalletEvent.send?

def signFailures (tr : WalletTrace) : ℕ := tr.countP WalletEvent.isSignFailure

def accepted (tr : WalletTrace) : ℕ := tr.countP WalletEvent.isAccepted

def rejected (tr : WalletTrace) : ℕ := tr.countP WalletEvent.isRejected

/-- Each transaction that is handed to the RPC carries the nonce at the start and as many more
as sends of the wallet were accepted, and the directions of its transactions alternate. -/
structure InSequence (start : UInt64) (tr : WalletTrace) : Prop where
  nonces : EverySplit (fun pre e => ∀ s ∈ e.send?,
    s.nonce.toNat = start.toNat + accepted pre) tr
  alternate : (tr.sends.map ScheduledSend.direction).IsChain (· ≠ ·)

/-- At each transaction that is handed to the RPC no nonce was lost to a signature that failed or
a send that was rejected, the turns that no swap went with cancel out, and the nonce is in range.
A counter of 64 bits does not see a loss of `2 ^ 64` nonces. -/
def NothingLost (start : UInt64) : WalletTrace → Prop :=
  EverySplit fun pre e => e.isSend →
    2 ^ 64 ∣ signFailures pre + rejected pre ∧ 2 ∣ signFailures pre ∧
      start.toNat + accepted pre < 2 ^ 64

instance (start : UInt64) (tr : WalletTrace) : Decidable (NothingLost start tr) :=
  EverySplit.decidable

end WalletTrace

/-! ## The trace of a wallet -/

/-- What one input does to the wallet at position `i`. -/
def Bench.events (cfg : EngineConfig) (i : ℕ) (s : Bench) : BenchInput → WalletTrace
  | .header h attempts =>
    if s.prepares cfg h then
      (s.wallets[i]?.map fun w => .prepared (w.prepare (attempts i)).2).toList
    else []
  | .sendResult j r => if j = i then [.answered r.outcome.isAccepted] else []
  | .ctrlC => []

def walletTrace (cfg : EngineConfig) (i : ℕ) (s : Bench) (is : List BenchInput) : WalletTrace :=
  (bench cfg).readings (Bench.events cfg i) s is

/-- When the next head comes, each transaction of each wallet has its result. -/
def Settled (cfg : EngineConfig) (s : Bench) : List BenchInput → Prop :=
  EverySplit fun pre input =>
    match input with
    | .header _ _ => ∀ i < s.wallets.length,
        (walletTrace cfg i s pre).accepted + (walletTrace cfg i s pre).rejected =
          (walletTrace cfg i s pre).sends.length
    | .sendResult _ _ => True
    | .ctrlC => True

instance (cfg : EngineConfig) (s : Bench) (is : List BenchInput) : Decidable (Settled cfg s is) :=
  @EverySplit.decidable _ _ _ fun pre input =>
    match input with
    | .header _ _ => inferInstanceAs (Decidable (∀ i < s.wallets.length,
        (walletTrace cfg i s pre).accepted + (walletTrace cfg i s pre).rejected =
          (walletTrace cfg i s pre).sends.length))
    | .sendResult _ _ => instDecidableTrue
    | .ctrlC => instDecidableTrue

namespace WalletTrace

variable {start : UInt64} {d : SwapDirection} {tr : WalletTrace} {e : WalletEvent}

section

variable (tr e)

theorem sends_snoc : sends (tr ++ [e]) = tr.sends ++ e.send?.toList := by
  unfold sends
  rw [List.filterMap_append]
  cases h : e.send? <;> simp [h]

theorem signFailures_snoc : signFailures (tr ++ [e]) =
    tr.signFailures + if e.isSignFailure then 1 else 0 := by
  unfold signFailures
  rw [List.countP_append, List.countP_singleton]

end

/-- The nonces that the wallet has taken, each with a turn of the direction. -/
def consumed (tr : WalletTrace) : ℕ := tr.sends.length + tr.signFailures

/-- What the code makes of a wallet that starts at a nonce and a direction, where each result is
in before the next transaction. -/
def Follows (start : UInt64) (d : SwapDirection) : WalletTrace → Prop :=
  EverySplit fun pre e => ∀ s ∈ e.send?,
    s.nonce.toNat = (start.toNat + consumed pre) % 2 ^ 64 ∧ s.direction = d.after (consumed pre) ∧
      accepted pre + rejected pre = (sends pre).length

/-- Where nothing is lost the last swap went the way that the number of swaps says. -/
def LastDirection (d : SwapDirection) (tr : WalletTrace) : Prop :=
  ∀ s ∈ tr.sends.getLast?, s.direction = d.after (tr.sends.length + 1)

/-- For a nonce, nothing lost is a matter of the counts before it. -/
theorem nonce_iff {s : ScheduledSend}
    (hnonce : s.nonce.toNat = (start.toNat + consumed tr) % 2 ^ 64)
    (hresults : accepted tr + rejected tr = tr.sends.length) :
    s.nonce.toNat = start.toNat + accepted tr ↔
      2 ^ 64 ∣ signFailures tr + rejected tr ∧ start.toNat + accepted tr < 2 ^ 64 := by
  unfold consumed at hnonce
  rw [hnonce]
  omega

/-- After an even number of failed signatures the direction of the next swap is not that of the
last one. -/
theorem turns_iff {s : ScheduledSend} (hlast : LastDirection d tr)
    (hdirection : s.direction = d.after (consumed tr))
    (hresults : accepted tr + rejected tr = tr.sends.length)
    (hlost : 2 ^ 64 ∣ signFailures tr + rejected tr) :
    (∀ t ∈ tr.sends.getLast?, t.direction ≠ s.direction) ↔ 2 ∣ signFailures tr := by
  cases hsends : tr.sends.getLast? with
  | none =>
    -- no transaction was handed over, so none was rejected
    have hnil : tr.sends = [] := List.getLast?_eq_none_iff.mp hsends
    rw [hnil, List.length_nil] at hresults
    refine iff_of_true nofun ?_
    omega
  | some t =>
    have ht : t.direction = d.after (tr.sends.length + 1) := hlast t hsends
    have hne : t.direction ≠ s.direction ↔ 2 ∣ signFailures tr := by
      rw [ht, hdirection, SwapDirection.after_ne_iff]
      unfold consumed
      omega
    simpa using hne

theorem inSequence_snoc_iff : InSequence start (tr ++ [e]) ↔ InSequence start tr ∧
    ∀ s ∈ e.send?, s.nonce.toNat = start.toNat + accepted tr ∧
      ∀ t ∈ tr.sends.getLast?, t.direction ≠ s.direction := by
  have halternate : ((sends (tr ++ [e])).map ScheduledSend.direction).IsChain (· ≠ ·) ↔
      (tr.sends.map ScheduledSend.direction).IsChain (· ≠ ·) ∧
        ∀ s ∈ e.send?, ∀ t ∈ tr.sends.getLast?, t.direction ≠ s.direction := by
    rw [sends_snoc, List.isChain_map, List.isChain_append, List.isChain_map]
    cases e.send? with
    | none => simp
    | some s => simp
  constructor
  · rintro ⟨hnonces, hchain⟩
    obtain ⟨hpre, he⟩ := EverySplit.snoc_iff.mp hnonces
    obtain ⟨hchain, hturn⟩ := halternate.mp hchain
    exact ⟨⟨hpre, hchain⟩, fun s hs => ⟨he s hs, hturn s hs⟩⟩
  · rintro ⟨⟨hpre, hchain⟩, he⟩
    exact ⟨EverySplit.snoc_iff.mpr ⟨hpre, fun s hs => (he s hs).1⟩,
      halternate.mpr ⟨hchain, fun s hs => (he s hs).2⟩⟩

theorem nothingLost_snoc_iff : NothingLost start (tr ++ [e]) ↔ NothingLost start tr ∧
    (e.isSend → 2 ^ 64 ∣ signFailures tr + rejected tr ∧ 2 ∣ signFailures tr ∧
      start.toNat + accepted tr < 2 ^ 64) := EverySplit.snoc_iff

/-- A swap that follows an even number of failed signatures is the last one to go its way. -/
theorem lastDirection_snoc {s : ScheduledSend} (hsend : e.send? = some s)
    (hdirection : s.direction = d.after (consumed tr)) (hturns : 2 ∣ signFailures tr) :
    LastDirection d (tr ++ [e]) := by
  intro t ht
  rw [sends_snoc, hsend] at ht ⊢
  have hts : s = t := by simpa using ht
  rw [← hts, hdirection]
  by_contra hne
  have hodd := (d.after_ne_iff _ _).mp hne
  rw [List.length_append] at hodd
  unfold consumed at hodd
  simp only [Option.toList_some, List.length_singleton] at hodd
  omega

/-- The code keeps the law exactly where nothing is lost. -/
theorem Follows.inSequence_iff (h : Follows start d tr) :
    InSequence start tr ↔ NothingLost start tr := by
  have hboth : (InSequence start tr ↔ NothingLost start tr) ∧
      (NothingLost start tr → LastDirection d tr) := by
    induction tr using List.reverseRecOn with
    | nil =>
      exact ⟨⟨fun _ => EverySplit.nil, fun _ => ⟨EverySplit.nil, List.IsChain.nil⟩⟩, fun _ => nofun⟩
    | append_singleton tr e ih =>
      obtain ⟨hpre, he⟩ := EverySplit.snoc_iff.mp h
      obtain ⟨hiff, hlast⟩ := ih hpre
      rw [inSequence_snoc_iff, nothingLost_snoc_iff, hiff]
      cases hsend : e.send? with
      | none =>
        have hsame : sends (tr ++ [e]) = sends tr := by rw [sends_snoc, hsend]; simp
        unfold LastDirection at hlast ⊢
        simpa [WalletEvent.isSend, hsend, hsame] using hlast
      | some s =>
        obtain ⟨hnonce, hdirection, hresults⟩ := he s hsend
        have hisSend : e.isSend := by simp [WalletEvent.isSend, hsend]
        refine ⟨and_congr_right fun hkept => ?_, fun hkept =>
          lastDirection_snoc hsend hdirection (hkept.2 hisSend).2.1⟩
        have hcounts := nonce_iff hnonce hresults
        have hturns := turns_iff (hlast hkept) hdirection hresults
        constructor
        · intro hs
          obtain ⟨hn, ht⟩ := hs s rfl
          obtain ⟨hlost, hfits⟩ := hcounts.mp hn
          exact fun _ => ⟨hlost, (hturns hlost).mp ht, hfits⟩
        · intro hs t ht
          obtain rfl := Option.some.inj ht
          obtain ⟨hlost, heven, hfits⟩ := hs hisSend
          exact ⟨hcounts.mpr ⟨hlost, hfits⟩, (hturns hlost).mpr heven⟩
  exact hboth.1

/-- A wallet that has taken as many nonces and turns as the trace says. -/
structure Tracks (start : UInt64) (d : SwapDirection) (tr : WalletTrace) (w : Trader) : Prop where
  nonce : w.1.nonce.toNat = (start.toNat + consumed tr) % 2 ^ 64
  direction : w.2.currentDirection = d.after (consumed tr)

theorem consumed_snoc : consumed (tr ++ [e]) = consumed tr + e.taken := by
  unfold consumed WalletEvent.taken
  rw [sends_snoc, signFailures_snoc, List.length_append]
  omega

/-- An event that takes no nonce leaves the wallet alone. -/
theorem Tracks.idle {w : Trader} (h : Tracks start d tr w) (htaken : e.taken = 0) :
    Tracks start d (tr ++ [e]) w := by
  refine ⟨?_, ?_⟩
  · rw [consumed_snoc, htaken]
    exact h.nonce
  · rw [consumed_snoc, htaken]
    exact h.direction

theorem Tracks.advance {w : Trader} (h : Tracks start d tr w) (htaken : e.taken = 1) :
    Tracks start d (tr ++ [e]) (w.1.consumeNonce.2, w.2.advance) := by
  refine ⟨?_, ?_⟩
  · rw [Wallet.consumeNonce_nonce, UInt64.toNat_add, h.nonce, consumed_snoc, htaken]
    change ((start.toNat + consumed tr) % 2 ^ 64 + 1) % 2 ^ 64 = _
    omega
  · rw [PingPongState.currentDirection_advance, h.direction, consumed_snoc, htaken]
    rfl

/-- One round of the batch loop, where the results of the rounds before are in. -/
theorem Tracks.prepare {w : Trader} (h : Tracks start d tr w) (hfollows : Follows start d tr)
    (hresults : accepted tr + rejected tr = (sends tr).length) (a : Attempt) :
    Follows start d (tr ++ [.prepared (w.prepare a).2]) ∧
      Tracks start d (tr ++ [.prepared (w.prepare a).2]) (w.prepare a).1 := by
  rcases w.prepare_cases a with hencode | ⟨hmoved, hsign | ⟨txHash, hsend⟩⟩
  · rw [hencode]
    exact ⟨hfollows.snoc nofun, h.idle rfl⟩
  · rw [hmoved, hsign]
    exact ⟨hfollows.snoc nofun, h.advance rfl⟩
  · rw [hmoved, hsend]
    refine ⟨hfollows.snoc fun s hs => ?_, h.advance rfl⟩
    obtain rfl := Option.some.inj hs
    exact ⟨h.nonce, h.direction, hresults⟩

end WalletTrace

section

variable {cfg : EngineConfig} {s : Bench} {i : ℕ} {w : Trader} {is : List BenchInput}

open WalletTrace

theorem events_header (h : Header) (attempts : ℕ → Attempt) :
    s.events cfg i (.header h attempts) = if s.prepares cfg h then
      (s.wallets[i]?.map fun w => .prepared (w.prepare (attempts i)).2).toList else [] := rfl

theorem events_sendResult (j : ℕ) (r : SendResult) :
    s.events cfg i (.sendResult j r) =
      if j = i then [.answered r.outcome.isAccepted] else [] := rfl

theorem walletTrace_snoc (input : BenchInput) : walletTrace cfg i s (is ++ [input]) =
    walletTrace cfg i s is ++ ((bench cfg).run s is).1.events cfg i input :=
  (bench cfg).readings_snoc (Bench.events cfg i) s is input

/-- What the code makes of each wallet over a run. -/
theorem trace_follows (hw : s.wallets[i]? = some w) (h : Settled cfg s is) :
    Follows w.1.nonce w.2.currentDirection (walletTrace cfg i s is) ∧
      ∃ t, ((bench cfg).run s is).1.wallets[i]? = some t ∧
        Tracks w.1.nonce w.2.currentDirection (walletTrace cfg i s is) t := by
  induction is using List.reverseRecOn with
  | nil =>
    exact ⟨EverySplit.nil, w, hw, (Nat.mod_eq_of_lt w.1.nonce.toNat_lt).symm, rfl⟩
  | append_singleton is input ih =>
    obtain ⟨his, hinput⟩ := EverySplit.snoc_iff.mp h
    obtain ⟨hfollows, t, ht, htracks⟩ := ih his
    rw [walletTrace_snoc, EventMachine.run_snoc_fst]
    cases input with
    | header hd attempts =>
      have hresults := hinput i (List.getElem?_eq_some_iff.mp hw).1
      rw [step_header_wallet attempts ht, events_header]
      split
      · rw [ht]
        obtain ⟨hnext, htracks⟩ := htracks.prepare hfollows hresults (attempts i)
        exact ⟨hnext, _, rfl, htracks⟩
      · rw [List.append_nil]
        exact ⟨hfollows, t, rfl, htracks⟩
    | sendResult j r =>
      rw [events_sendResult]
      split
      · exact ⟨hfollows.snoc nofun, t, ht, htracks.idle rfl⟩
      · rw [List.append_nil]
        exact ⟨hfollows, t, ht, htracks⟩
    | ctrlC =>
      rw [Bench.events, List.append_nil]
      exact ⟨hfollows, t, ht, htracks⟩

/-- A wallet sends in sequence exactly where it loses nothing. -/
theorem sends_in_sequence_iff (cfg : EngineConfig) (s : Bench) (is : List BenchInput)
    (hsettled : Settled cfg s is) (i : ℕ) (w : Trader) (hw : s.wallets[i]? = some w) :
    InSequence w.1.nonce (walletTrace cfg i s is) ↔
      NothingLost w.1.nonce (walletTrace cfg i s is) :=
  (trace_follows hw hsettled).1.inSequence_iff

/-! Three blocks at one offset; the wallet starts at nonce 7. -/

def gapConfig : EngineConfig where
  lookahead := 5
  threshold := 3
  schedule := ⟨⟨0, 0, 1, 3⟩, Nat.le_refl 0, Nat.one_pos, Nat.succ_pos 2⟩
  routerParses := true

def gapTrader : Trader :=
  (⟨"w1", 7⟩, (PingPongState.initializeWithAmounts 10 10 0 10).get rfl)

def gapBench : Bench := Bench.start gapConfig [gapTrader]

def gapHeader (n : ℕ) : BenchInput :=
  .header ⟨n, n, n, some [], 0, []⟩ fun _ => ⟨true, some n⟩

def gapResult (n nonce : ℕ) (outcome : SendOutcome) : BenchInput :=
  .sendResult 0 ⟨"w1", n, n - 1, n, n, 0, n - 1, nonce, n * 1000, n * 1000, 0, 90, outcome⟩

def acceptedRun : List BenchInput := [gapHeader 1, gapResult 1 7 .accepted, gapHeader 2]

theorem sends_in_sequence_iff_accepted :
    InSequence 7 (walletTrace gapConfig 0 gapBench acceptedRun) :=
  (sends_in_sequence_iff gapConfig gapBench acceptedRun (by decide) 0 gapTrader rfl).mpr
    (by decide)

def rejectedRun : List BenchInput :=
  [gapHeader 1, gapResult 1 7 (.rejected (-32000) "insufficient funds"), gapHeader 2]

/-- The rejected transaction has taken nonce 7, and the next one goes out with nonce 8. -/
theorem rejected_send_leaves_gap :
    Settled gapConfig gapBench rejectedRun ∧
      classifyError (-32000) "insufficient funds" ≠ "nonce_too_low" ∧
      ¬InSequence 7 (walletTrace gapConfig 0 gapBench rejectedRun) := by
  refine ⟨by decide, by decide +kernel, fun h => ?_⟩
  have htrace : walletTrace gapConfig 0 gapBench rejectedRun =
      [.prepared (.scheduled ⟨"w1", 1, 7, .aToB⟩), .answered false] ++
        [.prepared (.scheduled ⟨"w1", 2, 8, .bToA⟩)] := by decide
  rw [htrace] at h
  have hgap := h.nonces _ _ [] rfl _ rfl
  exact absurd hgap (by decide)

/-- A signature that fails takes a turn with it: two swaps in a row go the same way. -/
example : (sends (walletTrace gapConfig 0 gapBench
    [gapHeader 1, gapResult 1 7 .accepted, .header ⟨2, 2, 2, some [], 0, []⟩ fun _ => ⟨true, none⟩,
      gapHeader 3])).map ScheduledSend.direction = [.aToB, .aToB] := by decide

end

end SolanaBench.TxCutoff
