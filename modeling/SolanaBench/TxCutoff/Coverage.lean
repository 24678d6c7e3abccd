import SolanaBench.TxCutoff.Abort

/-! Which positions of the plan are sampled. The position moves on with every head that is
handled before the plan is complete, also with one that comes too late to be sampled. -/
namespace SolanaBench.TxCutoff

open Engine

/-- The input ends the main loop with 'plan complete'. -/
def Engine.Completes (cfg : EngineConfig) (s : Engine) : Input → Prop
  | .header _ => s.running ∧ cfg.schedule.slotMsFor s.blockIndex = none
  | .sendResult _ => False
  | .ctrlC => False

/-- An input for which nothing is sent leaves the position alone. -/
def Engine.KeepsPosition (cfg : EngineConfig) (s : Engine) (i : Input) : Prop :=
  sending (s.batch cfg i) = [] → ((engine cfg).step s i).1.blockIndex = s.blockIndex

/-- Unless the plan is complete, the head comes before its target and some wallet signs. The
clock counts whole milliseconds, so that a head received in the target's one is late. -/
def Engine.InTime (cfg : EngineConfig) (s : Engine) : Input → Prop
  | .header hd => s.running → ∀ slotMs ∈ cfg.schedule.slotMsFor s.blockIndex,
      hd.receivedUnixMs < targetUnixMs hd slotMs ∧ (cfg.routerParses → hd.signed ≠ [])
  | .sendResult _ => True
  | .ctrlC => True

section

variable {cfg : EngineConfig} {s : Engine} {i : Input} {is pre : List Input}

theorem sending_singleton (k : ℕ) {n : ℕ} (h : 0 < n) : sending [(k, n)] = [(k, n)] :=
  List.filter_eq_self.mpr fun b hb => by simpa [List.mem_singleton.mp hb] using h

theorem onResult_blockIndex (res : SendResult) : (s.onResult res).1.blockIndex = s.blockIndex := by
  unfold Engine.onResult
  dsimp only
  split <;> rfl

/-- What a handled head does to the plan: the plan is complete, the head is late, the block is
sampled, or the router address does not parse. -/
theorem header_cases (cfg : EngineConfig) (hd : Header) (hrun : s.running) :
    (cfg.schedule.slotMsFor s.blockIndex = none ∧ s.batch cfg (.header hd) = [] ∧
        ((engine cfg).step s (.header hd)).1.blockIndex = s.blockIndex) ∨
      ∃ slotMs, cfg.schedule.slotMsFor s.blockIndex = some slotMs ∧
        ((targetUnixMs hd slotMs ≤ hd.receivedUnixMs ∧ s.batch cfg (.header hd) = [] ∧
            ((engine cfg).step s (.header hd)).1.blockIndex = s.blockIndex + 1) ∨
          hd.receivedUnixMs < targetUnixMs hd slotMs ∧
            ((cfg.routerParses = true ∧
                s.batch cfg (.header hd) = [(s.blockIndex, hd.signed.length)] ∧
                ((engine cfg).step s (.header hd)).1.blockIndex = s.blockIndex + 1) ∨
              cfg.routerParses = false ∧ s.batch cfg (.header hd) = [] ∧
                ((engine cfg).step s (.header hd)).1.blockIndex = s.blockIndex)) := by
  rw [step_header hrun]
  have hresolve : (s.resolve hd).1.blockIndex = s.blockIndex := rfl
  unfold Engine.batch Engine.samples Engine.sample
  rw [hresolve]
  cases hslot : cfg.schedule.slotMsFor s.blockIndex with
  | none => exact Or.inl ⟨rfl, by simp, rfl⟩
  | some slotMs =>
    refine Or.inr ⟨slotMs, rfl, ?_⟩
    rcases le_or_gt (targetUnixMs hd slotMs) hd.receivedUnixMs with hlate | htime
    · refine Or.inl ⟨hlate, by simp [hlate], ?_⟩
      simp [hlate]
    · refine Or.inr ⟨htime, ?_⟩
      cases hrouter : cfg.routerParses with
      | true =>
        refine Or.inl ⟨rfl, by simp [hrun, htime], ?_⟩
        simp [not_le.mpr htime, register, hresolve]
      | false =>
        refine Or.inr ⟨rfl, by simp, ?_⟩
        simp [not_le.mpr htime]

theorem step_blockIndex_of_stopped (hstop : ¬s.running) :
    ((engine cfg).step s i).1.blockIndex = s.blockIndex := by
  cases i with
  | header hd => simp [engine, hstop]
  | sendResult res => simp [engine, hstop]
  | ctrlC => rfl

/-- A late head takes a position, and so does a batch that no wallet signs. -/
theorem keepsPosition_iff : s.KeepsPosition cfg i ↔ s.InTime cfg i := by
  by_cases hrun : s.running
  · cases i with
    | header hd =>
      unfold KeepsPosition InTime
      rcases header_cases cfg hd hrun with ⟨hslot, -, hkeep⟩ |
        ⟨slotMs, hslot, ⟨hlate, hbatch, hnext⟩ | ⟨htime, ⟨hrouter, hbatch, hnext⟩ |
          ⟨hrouter, hbatch, hkeep⟩⟩⟩
      · simp [hslot, hkeep]
      · simp [hslot, hbatch, hnext, sending, hrun, not_lt.mpr hlate]
      · simp [hslot, hbatch, hnext, sending, hrun, htime, hrouter]
      · simp [hslot, hkeep, htime, hrouter]
    | sendResult res =>
      refine iff_of_true (fun _ => ?_) trivial
      rw [step_sendResult hrun]
      exact onResult_blockIndex res
    | ctrlC => exact iff_of_true (fun _ => rfl) trivial
  · refine iff_of_true (fun _ => step_blockIndex_of_stopped hrun) ?_
    cases i with
    | header hd => exact fun h => absurd h hrun
    | sendResult res => trivial
    | ctrlC => trivial

/-- Where a head is in time, the position moves with the block that is sampled. -/
theorem InTime.step (h : s.InTime cfg i) :
    ((sending (s.batch cfg i)).map Prod.fst = [] ∧
        ((engine cfg).step s i).1.blockIndex = s.blockIndex) ∨
      (sending (s.batch cfg i)).map Prod.fst = [s.blockIndex] ∧
        ((engine cfg).step s i).1.blockIndex = s.blockIndex + 1 ∧
          s.blockIndex < cfg.schedule.totalBlocks := by
  have hkeep := keepsPosition_iff.mpr h
  by_cases hnone : sending (s.batch cfg i) = []
  · exact Or.inl ⟨by rw [hnone]; rfl, hkeep hnone⟩
  · cases i with
    | header hd =>
      by_cases hrun : s.running
      · rcases header_cases cfg hd hrun with ⟨-, hbatch, -⟩ |
          ⟨slotMs, hslot, ⟨-, hbatch, -⟩ | ⟨-, ⟨-, hbatch, hnext⟩ | ⟨-, hbatch, -⟩⟩⟩
        · exact absurd (by rw [hbatch]; rfl) hnone
        · exact absurd (by rw [hbatch]; rfl) hnone
        · have hlt : s.blockIndex < cfg.schedule.totalBlocks := by
            refine Nat.lt_of_not_le fun hle => ?_
            rw [(Schedule.slotMsFor_eq_none_iff _ _).mpr hle] at hslot
            cases hslot
          have hsigned : hd.signed ≠ [] := by
            intro hnil
            exact hnone (by simp [hbatch, sending, hnil])
          rw [hbatch, sending_singleton s.blockIndex (List.length_pos_iff.mpr hsigned)]
          exact Or.inr ⟨rfl, hnext, hlt⟩
        · exact absurd (by rw [hbatch]; rfl) hnone
      · simp [Engine.batch, hrun, sending] at hnone
    | sendResult res => exact absurd rfl hnone
    | ctrlC => exact absurd rfl hnone

end

end SolanaBench.TxCutoff
