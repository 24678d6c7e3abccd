import SolanaBench.Lib.Text
import SolanaBench.TickTrigger.Preparer

/-! The memo of a variant names its sender, slot and tick: it can be decoded again. -/
namespace SolanaBench.TickTrigger.TxBuilder

open TriggerEngine (TriggerId)

/-- Both fields of a memo, the second one split into slot and tick. -/
def decodeMemo (memo : String) : Option (ℕ × ℕ × ℕ) :=
  match Text.splitOnce [':'] memo.toList with
  | none => none
  | some (senderId, triggerId) =>
    (Text.parseHex senderId).bind fun senderId =>
      (Text.parseHex triggerId).map fun triggerId =>
        (senderId, triggerId >>> 8, triggerId &&& 0xff)

/-! ## The trigger id -/

section

variable {slot tick : ℕ}

/-- The two fields do not overlap, and nothing is shifted out. -/
theorem fromSlotTick_eq (hslot : slot < 2 ^ 56) (htick : tick < 2 ^ 8) :
    (TriggerId.fromSlotTick slot tick : ℕ) = slot * 2 ^ 8 + tick := by
  have hshift : (slot <<< 8) % 2 ^ 64 = slot <<< 8 := by
    rw [Nat.shiftLeft_eq]
    exact Nat.mod_eq_of_lt (by omega)
  unfold TriggerId.fromSlotTick
  rw [hshift, ← Nat.shiftLeft_add_eq_or_of_lt htick, Nat.shiftLeft_eq]

theorem fromSlotTick_lt (hslot : slot < 2 ^ 56) (htick : tick < 2 ^ 8) :
    (TriggerId.fromSlotTick slot tick : ℕ) < 16 ^ 16 := by
  have hbound : slot * 2 ^ 8 + tick < 16 ^ 16 := by omega
  exact (fromSlotTick_eq hslot htick).trans_lt hbound

theorem slot_of_fromSlotTick (hslot : slot < 2 ^ 56) (htick : tick < 2 ^ 8) :
    (TriggerId.fromSlotTick slot tick : ℕ) >>> 8 = slot := by
  have hdiv : (slot * 2 ^ 8 + tick) / 2 ^ 8 = slot := by omega
  rw [fromSlotTick_eq hslot htick, Nat.shiftRight_eq_div_pow]
  exact hdiv

theorem tick_of_fromSlotTick (hslot : slot < 2 ^ 56) (htick : tick < 2 ^ 8) :
    (TriggerId.fromSlotTick slot tick : ℕ) &&& 0xff = tick := by
  have hmask : (0xff : ℕ) = 2 ^ 8 - 1 := rfl
  have hmod : (slot * 2 ^ 8 + tick) % 2 ^ 8 = tick := by omega
  rw [fromSlotTick_eq hslot htick, hmask, Nat.and_two_pow_sub_one_eq_mod]
  exact hmod

end

/-! ## The payload -/

section

variable {senderId : ℕ} {triggerId : TriggerId}

theorem parseHex_hexPad (width n : ℕ) : Text.parseHex (hexPad width n) = some n :=
  Text.parseHex_zeros_toDigits _ n

theorem length_hexPad {width n : ℕ} (hwidth : 0 < width) (hn : n < 16 ^ width) :
    (hexPad width n).length = width :=
  Text.length_zeros_toDigits hwidth hn

theorem hexVal_hexPad (width n : ℕ) : ∀ c ∈ hexPad width n, (Text.hexVal c).isSome := by
  have hread := parseHex_hexPad width n
  unfold Text.parseHex at hread
  split at hread
  · cases hread
  · exact Text.hexVal_isSome_of_readHex hread

theorem colon_notMem_hexPad (width n : ℕ) : ':' ∉ hexPad width n := fun h =>
  absurd (hexVal_hexPad width n ':' h) (by decide)

theorem memoPayload_ascii (senderId : ℕ) (triggerId : TriggerId) :
    ∀ c ∈ hexPad 2 senderId ++ ':' :: hexPad 16 triggerId, c.toNat < 128 := by
  intro c hc
  rcases List.mem_append.mp hc with hc | hc
  · exact Text.isAscii_of_hexVal (hexVal_hexPad 2 senderId c hc)
  · rcases List.mem_cons.mp hc with rfl | hc
    · decide
    · exact Text.isAscii_of_hexVal (hexVal_hexPad 16 triggerId c hc)

theorem memoPayload_size (hsender : senderId < 16 ^ 2) (htrigger : triggerId < 16 ^ 16) :
    (memoPayload senderId triggerId).utf8ByteSize = 19 := by
  unfold memoPayload
  rw [Text.utf8ByteSize_of_ascii (memoPayload_ascii senderId triggerId), List.length_append,
    List.length_cons, length_hexPad (by decide) hsender, length_hexPad (by decide) htrigger]

theorem decodeMemo_memoPayload (senderId : ℕ) (triggerId : TriggerId) :
    decodeMemo (memoPayload senderId triggerId) =
      some (senderId, triggerId >>> 8, triggerId &&& 0xff) := by
  unfold decodeMemo memoPayload
  rw [String.toList_ofList, Text.splitOnce_append (colon_notMem_hexPad 2 senderId)]
  dsimp only
  rw [parseHex_hexPad, parseHex_hexPad]
  rfl

end

/-- The memo is 19 bytes of ASCII and tells the sender, the slot and the tick, so that no other
triple has the same memo. -/
theorem memo_decodes (senderId tick : UInt8) {slot : ℕ} (hslot : slot < 2 ^ 56) :
    let memo := memoPayload senderId.toNat (TriggerId.fromSlotTick slot tick.toNat)
    memo.utf8ByteSize = 19 ∧ (∀ c ∈ memo.toList, c.toNat < 128) ∧
      decodeMemo memo = some (senderId.toNat, slot, tick.toNat) ∧
        ∀ (senderId' tick' : UInt8) (slot' : ℕ), slot' < 2 ^ 56 →
          memoPayload senderId'.toNat (TriggerId.fromSlotTick slot' tick'.toNat) = memo →
            senderId' = senderId ∧ slot' = slot ∧ tick' = tick := by
  have hdecode : ∀ (senderId tick : UInt8) (slot : ℕ), slot < 2 ^ 56 →
      decodeMemo (memoPayload senderId.toNat (TriggerId.fromSlotTick slot tick.toNat)) =
        some (senderId.toNat, slot, tick.toNat) := by
    intro senderId tick slot hslot
    rw [decodeMemo_memoPayload, slot_of_fromSlotTick hslot tick.toNat_lt,
      tick_of_fromSlotTick hslot tick.toNat_lt]
  refine ⟨memoPayload_size senderId.toNat_lt (fromSlotTick_lt hslot tick.toNat_lt), ?_,
    hdecode senderId tick slot hslot, fun senderId' tick' slot' hslot' hmemo => ?_⟩
  · unfold memoPayload
    rw [String.toList_ofList]
    exact memoPayload_ascii _ _
  · have heq := (hdecode senderId' tick' slot' hslot').symm.trans
      ((congrArg decodeMemo hmemo).trans (hdecode senderId tick slot hslot))
    simp only [Option.some.injEq, Prod.mk.injEq] at heq
    obtain ⟨hsender, hslots, htick⟩ := heq
    exact ⟨UInt8.toNat_inj.mp hsender, hslots, UInt8.toNat_inj.mp htick⟩

/-- Sender 7, the last slot that fits, tick 64. -/
theorem memo_decodes_last_slot :
    decodeMemo (memoPayload 7 (TriggerId.fromSlotTick (2 ^ 56 - 1) 64)) =
      some (7, 2 ^ 56 - 1, 64) :=
  (memo_decodes 7 64 (by decide)).2.2.1

end SolanaBench.TickTrigger.TxBuilder
