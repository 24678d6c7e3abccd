import Mathlib.Algebra.Order.Field.Rat
import Mathlib.Tactic.Linarith
import SolanaBench.Lib.AListWeight
import SolanaBench.TxCutoff.Resolution

/-! The rows of the aggregator balance at every point of a run: a transaction is in one outcome
column at most, and was counted as sent before. -/
namespace SolanaBench.TxCutoff

/-- The transactions of the row whose outcome is known. -/
def SlotStats.outcomes (s : SlotStats) : ℕ :=
  s.includedTarget + s.includedLate + s.dropped + s.errors

/-- The row of an offset; an offset without a row has zero counters. -/
def SlotAggregator.row (agg : SlotAggregator) (slotMs : ℕ) : SlotStats :=
  (agg.get? slotMs).getD { slotMs := slotMs }

/-- What a record adds to the sends of its row. -/
def InclusionKind.sends : InclusionKind → ℕ
  | .pending => 1
  | .sendError => 1
  | .target => 0
  | .late _ => 0
  | .dropped => 0

/-- What a record adds to the outcomes of its row. -/
def InclusionKind.settles : InclusionKind → ℕ
  | .pending => 0
  | .sendError => 1
  | .target => 1
  | .late _ => 1
  | .dropped => 1

def Balanced (os : List Output) : Prop :=
  ∀ slotMs, ((aggregate os).row slotMs).outcomes ≤ ((aggregate os).row slotMs).sent

/-- The first records of the offset that wait for their second one. -/
def held (slotMs : ℕ) (pending : AList fun _ : TxHash => PartialRecord) : ℕ :=
  pending.weight fun _ p => if p.slotMs = slotMs then 1 else 0

/-- What waits is counted as sent, and has no outcome yet. -/
def Covered (pending : AList fun _ : TxHash => PartialRecord) (os : List Output) : Prop :=
  ∀ slotMs, ((aggregate os).row slotMs).outcomes + held slotMs pending ≤
    ((aggregate os).row slotMs).sent

section

variable {pending pending' : AList fun _ : TxHash => PartialRecord} {os : List Output}
  {rec : TxRecord}

theorem aggregate_write : aggregate (os ++ [.write rec]) = aggregate os := by
  simp [aggregate]

theorem aggregate_ingest : aggregate (os ++ [.ingest rec]) = (aggregate os).ingest rec := by
  simp [aggregate]

theorem row_ingest (agg : SlotAggregator) (rec : TxRecord) (slotMs : ℕ) :
    (agg.ingest rec).row slotMs =
      if rec.slotMs = slotMs then (agg.row slotMs).count rec.inclusion else agg.row slotMs := by
  unfold SlotAggregator.row SlotAggregator.ingest
  split
  · rename_i h
    subst h
    rw [SortedMap.get?_insert_self]
    rfl
  · rename_i h
    rw [SortedMap.get?_insert_of_ne (Ne.symm h)]

theorem Covered.balanced (h : Covered pending os) : Balanced os := fun slotMs =>
  (Nat.le_add_right _ _).trans (h slotMs)

/-- A record that keeps what waits covered is emitted in balance. -/
theorem throughout_emit (h : Throughout Balanced os) (hnext : Covered pending' (os ++ emit rec)) :
    Throughout Balanced (os ++ emit rec) := by
  have hsplit : os ++ emit rec = os ++ [.write rec] ++ [.ingest rec] := by simp [emit]
  rw [hsplit] at hnext ⊢
  refine Throughout.snoc_iff.mpr ⟨Throughout.snoc_iff.mpr ⟨h, ?_⟩, hnext.balanced⟩
  unfold Balanced
  rw [aggregate_write]
  exact h.last

theorem aggregate_emit : aggregate (os ++ emit rec) = (aggregate os).ingest rec := by
  have hsplit : os ++ emit rec = os ++ [.write rec] ++ [.ingest rec] := by simp [emit]
  rw [hsplit, aggregate_ingest, aggregate_write]

theorem held_erase (slotMs : ℕ) (pending : AList fun _ : TxHash => PartialRecord) (tx : TxHash) :
    held slotMs (pending.erase tx) ≤ held slotMs pending := by
  have herase := AList.weight_erase (fun _ p => if p.slotMs = slotMs then 1 else 0) pending tx
  unfold held
  omega

theorem held_erase_of_lookup {tx : TxHash} {p : PartialRecord} (h : pending.lookup tx = some p)
    (slotMs : ℕ) : held slotMs (pending.erase tx) + (if p.slotMs = slotMs then 1 else 0) =
      held slotMs pending := by
  have herase := AList.weight_erase (fun _ p => if p.slotMs = slotMs then 1 else 0) pending tx
  rwa [AList.weightOf_eq h] at herase

theorem held_insert (slotMs : ℕ) (pending : AList fun _ : TxHash => PartialRecord) (tx : TxHash)
    (p : PartialRecord) : held slotMs (pending.insert tx p) ≤
      held slotMs pending + if p.slotMs = slotMs then 1 else 0 := by
  have hinsert := AList.weight_insert (fun _ p => if p.slotMs = slotMs then 1 else 0) pending tx p
  unfold held
  omega

theorem sent_count (s : SlotStats) (k : InclusionKind) : (s.count k).sent = s.sent + k.sends := by
  cases k <;> rfl

theorem outcomes_count (s : SlotStats) (k : InclusionKind) :
    (s.count k).outcomes = s.outcomes + k.settles := by
  cases k <;> simp only [SlotStats.outcomes, SlotStats.count, InclusionKind.settles] <;> omega

/-- A record may settle what it sends and what no longer waits. -/
theorem Covered.emit (h : Covered pending os)
    (hnext : ∀ slotMs,
      held slotMs pending' + (if rec.slotMs = slotMs then rec.inclusion.settles else 0) ≤
        held slotMs pending + if rec.slotMs = slotMs then rec.inclusion.sends else 0) :
    Covered pending' (os ++ emit rec) := by
  intro slotMs
  have hold := h slotMs
  have hslot := hnext slotMs
  rw [aggregate_emit, row_ingest]
  by_cases heq : rec.slotMs = slotMs
  · simp only [if_pos heq] at hslot ⊢
    rw [sent_count, outcomes_count]
    omega
  · simp only [if_neg heq] at hslot ⊢
    omega

/-- A second record takes the place of what the first one left. -/
theorem Covered.resolved (h : Covered pending os) {tx : TxHash} {p : PartialRecord}
    (hp : pending.lookup tx = some p) (k : InclusionKind) (block : Option ℕ) :
    Covered (pending.erase tx) (os ++ TxCutoff.emit (p.intoTxRecord k block)) := by
  refine h.emit fun slotMs => ?_
  have hheld := held_erase_of_lookup hp slotMs
  have hsettles : k.settles ≤ 1 := by cases k <;> simp [InclusionKind.settles]
  change _ + (if p.slotMs = slotMs then k.settles else 0) ≤ _
  split at hheld
  · rename_i heq
    rw [if_pos heq]
    omega
  · rename_i hne
    rw [if_neg hne]
    omega

/-- What a header resolves. -/
theorem covered_resolving (rs : List ResolvedTx) (h : Covered pending os)
    (hall : Throughout Balanced os) :
    Covered (Engine.resolving.run pending rs).1 (os ++ (Engine.resolving.run pending rs).2) ∧
      Throughout Balanced (os ++ (Engine.resolving.run pending rs).2) := by
  refine Engine.resolving.run_rule
    (fun _ pending qs => Covered pending (os ++ qs) ∧ Throughout Balanced (os ++ qs)) pending
    ⟨by rwa [List.append_nil], by rwa [List.append_nil]⟩ (fun _ pending qs r h => ?_) rs
  obtain ⟨hcovered, hall⟩ := h
  rw [← List.append_assoc]
  have herase : Covered (pending.erase r.txHash) (os ++ qs) := fun slotMs =>
    (Nat.add_le_add_left (held_erase slotMs pending r.txHash) _).trans (hcovered slotMs)
  unfold Engine.resolving Engine.resolveOne
  dsimp only
  split
  · rw [List.append_nil]
    exact ⟨herase, hall⟩
  · rename_i p hp
    split
    · rename_i k hk
      have hnext := hcovered.resolved hp k r.includedBlock
      exact ⟨hnext, throughout_emit hall hnext⟩
    · rw [List.append_nil]
      exact ⟨herase, hall⟩

/-- A send result in the main loop. -/
theorem covered_onResult (s : Engine) (res : SendResult) (h : Covered s.pendingRecords os)
    (hall : Throughout Balanced os) :
    Covered (s.onResult res).1.pendingRecords (os ++ (s.onResult res).2) ∧
      Throughout Balanced (os ++ (s.onResult res).2) := by
  unfold Engine.onResult
  dsimp only
  split
  · have hnext : Covered (s.pendingRecords.insert res.txHash res.partialRecord)
        (os ++ emit (res.partialRecord.intoTxRecord .pending none)) := by
      refine h.emit fun slotMs => ?_
      change _ + (if _ then 0 else 0) ≤ _
      rw [ite_self]
      exact held_insert slotMs s.pendingRecords res.txHash res.partialRecord
    exact ⟨hnext, throughout_emit hall hnext⟩
  · have hnext : Covered s.pendingRecords
        (os ++ emit (res.partialRecord.intoTxRecord .sendError none)) :=
      h.emit fun slotMs => Nat.le_refl _
    exact ⟨hnext, throughout_emit hall hnext⟩

/-- A send result after it. -/
theorem covered_drain (res : SendResult) (h : Covered pending os)
    (hall : Throughout Balanced os) : Covered pending (os ++ Engine.drain res) ∧
      Throughout Balanced (os ++ Engine.drain res) := by
  have hnext : Covered pending (os ++ Engine.drain res) := by
    refine h.emit fun slotMs => Nat.add_le_add_left ?_ _
    cases res.outcome.isAccepted with
    | false => exact Nat.le_refl _
    | true =>
      change (if _ then 0 else 0) ≤ _
      rw [ite_self]
      exact Nat.zero_le _
  exact ⟨hnext, throughout_emit hall hnext⟩

end

/-- The rows balance at every point of a run. -/
theorem covered_run (cfg : EngineConfig) (is : List Input) :
    Covered (run cfg is).1.pendingRecords (run cfg is).2 ∧
      Throughout Balanced (run cfg is).2 := by
  refine (engine cfg).run_rule (fun _ s os => Covered s.pendingRecords os ∧ Throughout Balanced os)
    (Engine.start cfg) ⟨?_, ?_⟩ (fun _ s os i h => ?_) is
  · exact fun slotMs => Nat.le_refl 0
  · exact Throughout.nil_iff.mpr fun slotMs => Nat.le_refl 0
  · obtain ⟨hcovered, hall⟩ := h
    unfold engine
    cases i with
    | header hd =>
      dsimp only
      split
      · have hpending : (s.onHeader cfg hd).1.pendingRecords = (s.resolve hd).1.pendingRecords :=
          Engine.sample_pendingRecords cfg _ hd
        rw [hpending]
        exact covered_resolving _ hcovered hall
      · rw [List.append_nil]
        exact ⟨hcovered, hall⟩
    | sendResult res =>
      dsimp only
      split
      · exact covered_onResult s res hcovered hall
      · exact covered_drain res hcovered hall
    | ctrlC =>
      rw [List.append_nil]
      exact ⟨hcovered, hall⟩

/-- The bar of a row with no more inclusions than sends fits. -/
theorem barLen_le (s : SlotStats) (h : s.includedTarget ≤ s.sent) : s.barLen ≤ 30 := by
  have hpct : s.pct ≤ 100 := by
    unfold SlotStats.pct
    split
    · rename_i hsent
      have hshare : (s.includedTarget : ℚ) / s.sent ≤ 1 :=
        (div_le_one (by exact_mod_cast hsent)).mpr (by exact_mod_cast h)
      linarith
    · norm_num
  refine Nat.floor_le_of_le ?_
  push_cast
  linarith

/-- At every point of every run each row of the aggregator counts no more outcomes than sends,
and its bar fits into the report. -/
theorem rows_balanced (cfg : EngineConfig) (is : List Input) :
    Throughout (fun os => ∀ row ∈ (aggregate os).slotsOrdered,
      row.includedTarget + row.includedLate + row.dropped + row.errors ≤ row.sent ∧
        row.barLen ≤ 30) (run cfg is).2 := by
  intro os hos row hrow
  obtain ⟨e, he, rfl⟩ := List.mem_map.mp hrow
  have hrow' : (aggregate os).row e.1 = e.2 := by
    unfold SlotAggregator.row
    rw [SortedMap.get?_eq_some_iff.mpr he]
    rfl
  have hbalanced := (covered_run cfg is).2 os hos e.1
  rw [hrow'] at hbalanced
  refine ⟨hbalanced, barLen_le e.2 ?_⟩
  unfold SlotStats.outcomes at hbalanced
  omega

end SolanaBench.TxCutoff
