import Mathlib.Logic.Encodable.Basic
import Mathlib.Logic.Equiv.List
import SolanaBench.TickTriggerBench.Preparer

/-! When the signed transactions of a whole run of the preparer are pairwise different: the
amounts start over in every cycle, so a blockhash that comes again repeats them. -/
namespace SolanaBench.TickTriggerBench.Preparer

open Wallet (Instruction Message)

/-- Signed transactions of different entries differ in amount or blockhash, and so in their
signatures. -/
def ToldApart (signed : List Signed) : Prop :=
  ∀ x ∈ signed, ∀ y ∈ signed, x.entry ≠ y.entry →
    (x.amount, x.tx.blockhash) ≠ (y.amount, y.tx.blockhash) ∧ x.tx.signature ≠ y.tx.signature

variable {cfg : PreparerConfig}

/-! ## Signatures -/

/-- The message that `build_self_transfer` signs for an amount and a blockhash. -/
def message (cfg : PreparerConfig) (amount : ℕ) (blockhash : Hash) : Message :=
  Wallet.selfTransferMessage cfg.keypair amount cfg.priorityFeeMicrolamports
    cfg.heliusTipLamports blockhash

theorem signer_signature (blockhash : Hash) (nowSlot : ℕ) (clock : ℕ → Instant)
    (w : State × ℕ) (entries : List ScheduleEntry) :
    ∀ x ∈ ((signer cfg blockhash nowSlot clock).run w entries).2,
      x.tx.signature = cfg.sign (message cfg x.amount x.tx.blockhash) := by
  intro x hx
  obtain ⟨pre, entry, post, -, hx⟩ := EventMachine.exists_step_of_mem_run _ hx
  simp only [signer] at hx
  split at hx
  · obtain rfl := List.mem_singleton.mp hx
    rfl
  · cases hx

theorem run_signature (s : State) (is : List Input) :
    ∀ x ∈ ((machine cfg).run s is).2,
      x.tx.signature = cfg.sign (message cfg x.amount x.tx.blockhash) := by
  intro x hx
  obtain ⟨pre, i, post, -, hx⟩ := EventMachine.exists_step_of_mem_run _ hx
  cases i with
  | take key => cases hx
  | cycle blockhash now nowSlot clock =>
    simp only [machine, runCycle] at hx
    split at hx
    · cases hx
    · split at hx
      · cases hx
      · exact signer_signature _ nowSlot clock _ cfg.schedule x hx

/-- With signatures that tell messages apart, amount and blockhash decide. -/
theorem toldApart_iff_view (hsign : Function.Injective cfg.sign) (s : State) (is : List Input) :
    ToldApart ((machine cfg).run s is).2 ↔
      ∀ v ∈ ((machine cfg).run s is).2.map Signed.view,
        ∀ w ∈ ((machine cfg).run s is).2.map Signed.view, v.1 ≠ w.1 → v.2 ≠ w.2 := by
  simp only [List.forall_mem_map]
  refine ⟨fun h x hx y hy hne => (h x hx y hy hne).1, fun h x hx y hy hne => ?_⟩
  have hview := h x hx y hy hne
  refine ⟨hview, fun hsig => hview ?_⟩
  rw [run_signature s is x hx, run_signature s is y hy] at hsig
  obtain ⟨hamount, hblockhash⟩ := Wallet.selfTransferMessage_inj.mp (hsign hsig)
  exact Prod.ext hamount hblockhash

/-! ## Numbers -/

/-- No batch is longer than the schedule. -/
theorem number_lt {s : State} {is : List Input} {x : ScheduleEntry × ℕ × Hash}
    (hx : x ∈ BatchNumbers.numbered ((machine cfg).readings (batch cfg) s is)) :
    x.2.1 < cfg.schedule.length := by
  obtain ⟨l, hl, hn⟩ := BatchNumbers.mem_numbered.mp hx
  obtain ⟨t, i, hmem⟩ := EventMachine.mem_readings _ hl
  obtain ⟨hlt, -⟩ := List.getElem?_eq_some_iff.mp hn
  refine hlt.trans_le ?_
  unfold batch at hmem
  split at hmem
  · split at hmem
    · cases hmem
    · obtain ⟨-, rfl⟩ := Prod.mk.inj (List.mem_singleton.mp hmem)
      exact List.length_filter_le _ _
  · cases hmem

/-- Far enough below `u64::MAX` the numbers can be read off the amounts. -/
theorem numberView_apart_iff (hbase : cfg.amountLamports + cfg.schedule.length ≤ 2 ^ 64)
    {x y : ScheduleEntry × ℕ × Hash} (hx : x.2.1 < cfg.schedule.length)
    (hy : y.2.1 < cfg.schedule.length) :
    (numberView cfg x).2 ≠ (numberView cfg y).2 ↔ x.2 ≠ y.2 := by
  have hamount : satAddU64 cfg.amountLamports x.2.1 = satAddU64 cfg.amountLamports y.2.1 ↔
      x.2.1 = y.2.1 := by
    unfold satAddU64 U64.MAX
    omega
  unfold numberView
  rw [not_iff_not, Prod.ext_iff, Prod.ext_iff, hamount]

/-- The transactions of a run differ exactly when of two cycles with the same blockhash one has
the due entries of the other at its start. -/
theorem toldApart_run_iff (hbase : cfg.amountLamports + cfg.schedule.length ≤ 2 ^ 64)
    (hschedule : cfg.schedule.Nodup) (hsign : Function.Injective cfg.sign) (is : List Input) :
    ToldApart ((machine cfg).run {} is).2 ↔
      ∀ b ∈ (machine cfg).readings (batch cfg) {} is,
        ∀ c ∈ (machine cfg).readings (batch cfg) {} is,
          b.1 = c.1 → b.2 <+: c.2 ∨ c.2 <+: b.2 := by
  rw [toldApart_iff_view hsign, run_view hschedule, ← BatchNumbers.told_apart_iff]
  simp only [List.forall_mem_map]
  refine forall₂_congr fun x hx => forall₂_congr fun y hy => ?_
  rw [numberView_apart_iff hbase (number_lt hx) (number_lt hy)]
  rfl

/-! ## Two cycles -/

instance : Encodable Instruction :=
  Encodable.ofLeftInverse
    (fun
      | .setComputeUnitPrice microLamports => (0, microLamports, 0, 0)
      | .setComputeUnitLimit units => (1, units, 0, 0)
      | .transfer source target lamports => (2, source, target, lamports))
    (fun
      | (0, microLamports, _, _) => .setComputeUnitPrice microLamports
      | (1, units, _, _) => .setComputeUnitLimit units
      | (_, source, target, lamports) => .transfer source target lamports)
    fun i => by cases i <;> rfl

instance : Encodable Message :=
  Encodable.ofLeftInverse (fun m => (m.payer, m.instructions, m.recentBlockhash))
    (fun p => ⟨p.1, p.2.1, p.2.2⟩) fun _ => rfl

/-- Ticks of two slots, 100 slots apart. -/
def twoSlots : PreparerConfig where
  schedule := [⟨1000, 5⟩, ⟨1100, 9⟩]
  keypair := 1
  sign := Encodable.encode
  serialize := fun _ => []

/-- The second cycle comes 200 ms and one slot later, and has the other entry in its window. -/
def twoCycles (second : Hash) : List Input :=
  [.cycle (some 7) 0 1000 id, .cycle (some second) 200_000_000 1001 fun n => 200_000_000 + n]

/-- The same blockhash comes twice: both transactions transfer one lamport. -/
theorem twoCycles_collide :
    twoSlots.amountLamports + twoSlots.schedule.length ≤ 2 ^ 64 ∧ twoSlots.schedule.Nodup ∧
      Function.Injective twoSlots.sign ∧
        ¬ToldApart ((machine twoSlots).run {} (twoCycles 7)).2 := by
  refine ⟨by decide, by decide, Encodable.encode_injective, fun h => ?_⟩
  let first : Signed := ⟨⟨1000, 5⟩, 1, preSign twoSlots 1 7 0⟩
  let second : Signed := ⟨⟨1100, 9⟩, 1, preSign twoSlots 1 7 200_000_000⟩
  have hrun : ((machine twoSlots).run {} (twoCycles 7)).2 = [first, second] := rfl
  rw [hrun] at h
  exact (h first (by simp) second (by simp) (by decide)).1 rfl

/-- With another blockhash in the second cycle they differ. -/
theorem twoCycles_told_apart : ToldApart ((machine twoSlots).run {} (twoCycles 8)).2 :=
  (toldApart_run_iff (by decide) (by decide) Encodable.encode_injective _).mpr (by decide)

end SolanaBench.TickTriggerBench.Preparer
