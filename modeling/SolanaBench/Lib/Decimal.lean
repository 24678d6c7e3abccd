import SolanaBench.Lib.Text

/-!
# Decimal fields

`parseU64` reads a decimal number of 64 bits: at least one digit, after a plus sign or not, and
no overflow on the way. What it accepts is said by `IsDecimal`.
-/

namespace Text

/-- Go on reading from a number; `none` is an invalid digit or an overflow. -/
def readU64 (n : ℕ) : List Char → Option ℕ
  | [] => some n
  | c :: cs =>
    if c.isDigit then
      if 10 * n + (c.toNat - '0'.toNat) < 2 ^ 64 then readU64 (10 * n + (c.toNat - '0'.toNat)) cs
      else none
    else none

def parseU64 : List Char → Option ℕ
  | [] => none
  | c :: cs =>
    if c = '+' then if cs = [] then none else readU64 0 cs
    else readU64 0 (c :: cs)

/-- The digits of a number below `2 ^ 64`, leading zeros included. -/
structure IsDecimal (ds : List Char) (n : ℕ) : Prop where
  nonempty : ds ≠ []
  digits : ∀ c ∈ ds, c.isDigit
  value : Nat.ofDigitChars 10 ds 0 = n
  bound : n < 2 ^ 64

theorem le_ofDigitChars (n : ℕ) (cs : List Char) : n ≤ Nat.ofDigitChars 10 cs n := by
  induction cs generalizing n with
  | nil => simp
  | cons c cs ih =>
    rw [Nat.ofDigitChars_cons]
    exact le_trans (by omega) (ih _)

/-- An overflow on the way is one at the end. -/
theorem readU64_iff {n m : ℕ} {cs : List Char} (hn : n < 2 ^ 64) :
    readU64 n cs = some m ↔
      (∀ c ∈ cs, c.isDigit) ∧ Nat.ofDigitChars 10 cs n = m ∧ m < 2 ^ 64 := by
  induction cs generalizing n with
  | nil =>
    rw [readU64, Nat.ofDigitChars_nil]
    constructor
    · intro h
      obtain rfl := Option.some.inj h
      exact ⟨List.forall_mem_nil _, rfl, hn⟩
    · rintro ⟨-, rfl, -⟩
      rfl
  | cons c cs ih =>
    rw [readU64, Nat.ofDigitChars_cons, List.forall_mem_cons]
    split
    · next hc =>
      split
      · next hlt =>
        rw [ih hlt]
        simp [hc]
      · next hge =>
        refine iff_of_false (by simp) fun h => hge ?_
        exact lt_of_le_of_lt (le_ofDigitChars _ cs) (h.2.1 ▸ h.2.2)
    · next hc => simp [hc]

theorem isDecimal_iff {ds : List Char} {n : ℕ} :
    IsDecimal ds n ↔ ds ≠ [] ∧ readU64 0 ds = some n := by
  rw [readU64_iff (Nat.two_pow_pos 64)]
  exact ⟨fun h => ⟨h.nonempty, h.digits, h.value, h.bound⟩, fun h => ⟨h.1, h.2.1, h.2.2.1, h.2.2.2⟩⟩

/-- A plus sign is skipped. -/
theorem parseU64_iff {cs : List Char} {n : ℕ} :
    parseU64 cs = some n ↔ ∃ ds, (cs = ds ∨ cs = '+' :: ds) ∧ IsDecimal ds n := by
  have hplus : ∀ ds m, ¬IsDecimal ('+' :: ds) m := fun ds m h =>
    absurd (h.digits '+' List.mem_cons_self) (by decide)
  cases cs with
  | nil =>
    refine iff_of_false (by simp [parseU64]) ?_
    rintro ⟨ds, rfl | h, hds⟩
    · exact hds.nonempty rfl
    · cases h
  | cons c cs =>
    unfold parseU64
    dsimp only
    constructor
    · intro h
      split at h
      · next hc =>
        split at h
        · cases h
        · next hne => exact ⟨cs, Or.inr (hc ▸ rfl), isDecimal_iff.mpr ⟨hne, h⟩⟩
      · exact ⟨c :: cs, Or.inl rfl, isDecimal_iff.mpr ⟨by simp, h⟩⟩
    · rintro ⟨ds, rfl | heq, hds⟩
      · rw [if_neg]
        · exact (isDecimal_iff.mp hds).2
        · rintro rfl
          exact hplus cs n hds
      · obtain ⟨rfl, rfl⟩ := List.cons.inj heq
        rw [if_pos rfl, if_neg hds.nonempty]
        exact (isDecimal_iff.mp hds).2

theorem isDecimal_toDigits {n : ℕ} (hn : n < 2 ^ 64) : IsDecimal (Nat.toDigits 10 n) n where
  nonempty := by simp
  digits c hc := Nat.isDigit_of_mem_toDigits (by decide) (by decide) hc
  value := Nat.ofDigitChars_ten_toDigits
  bound := hn

/-- A number is read back. -/
theorem parseU64_toDigits {n : ℕ} (hn : n < 2 ^ 64) : parseU64 (Nat.toDigits 10 n) = some n :=
  parseU64_iff.mpr ⟨_, Or.inl rfl, isDecimal_toDigits hn⟩

/-- Numbers are written without a character that is no digit. -/
theorem notMem_of_parseU64 {cs : List Char} {n : ℕ} {c : Char} (h : parseU64 cs = some n)
    (hc : c.isDigit = false) (hne : c ≠ '+') : c ∉ cs := by
  obtain ⟨ds, rfl | rfl, hds⟩ := parseU64_iff.mp h
  · exact fun hmem => by simp [hds.digits c hmem] at hc
  · intro hmem
    rcases List.mem_cons.mp hmem with rfl | hmem
    · exact hne rfl
    · simp [hds.digits c hmem] at hc

end Text
